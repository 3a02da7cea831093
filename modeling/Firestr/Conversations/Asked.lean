import Firestr.Conversations.ConversationService

/-! What a conversation's requests say. Each request was sent to the contact it
is filed under, and one in the state KNOW was answered so. -/

set_option autoImplicit false

namespace Firestr.Conversations

open Firestr.Library.Assoc Firestr.User Firestr.Util

/-- A conversation whose requests stand for messages sent and answers given. -/
structure Conversation.Accounted (inputs : List ServiceInput)
    (outbox : List (String × ServiceMessage)) (key : String) (conversation : Conversation) :
    Prop where
  named : conversation.id = key
  nonempty : conversation.id ≠ ""
  indexed : conversation.contacts.Indexed
  asked : ∀ add ∈ conversation.pendingAdds, ∀ request ∈ add.2.requests,
    (request.1, ServiceMessage.askContactReq key add.1) ∈ outbox ∧
      (request.2.state = .know → ServiceInput.askContactRes request.1 key add.1 1 ∈ inputs)

section Conversation

variable {inputs more : List ServiceInput} {outbox later : List (String × ServiceMessage)}
  {key id source : String} {conversation after : Conversation} {c : UserInfo}

theorem Conversation.Accounted.mono (accounted : conversation.Accounted inputs outbox key)
    (given : inputs ⊆ more) (sent : outbox ⊆ later) : conversation.Accounted more later key where
  named := accounted.named
  nonempty := accounted.nonempty
  indexed := accounted.indexed
  asked add pending request member :=
    have asked := accounted.asked add pending request member
    ⟨sent asked.1, fun know => given (asked.2 know)⟩

theorem Conversation.Accounted.new (created : Conversation.new key = .ok conversation) :
    conversation.Accounted inputs outbox key := by
  obtain ⟨_, named, created⟩ := bind_ok created
  cases created
  have nonempty : key ≠ "" := by
    rintro rfl
    cases named
  exact ⟨rfl, nonempty, .start, fun add pending => by cases pending⟩

private theorem mem_sentRequests (contacts : List UserInfo) {request : String × KnowRequest}
    (member : request ∈ Conversation.sentRequests contacts) :
    (∃ c ∈ contacts, c.id = request.1) ∧ request.2.state = .sent := by
  have folded : ∀ (start : List (String × KnowRequest)),
      request ∈ contacts.foldl
        (fun requests c => assign requests c.id { sentTo := c.id, state := .sent }) start →
      request ∈ start ∨ ((∃ c ∈ contacts, c.id = request.1) ∧ request.2.state = .sent) := by
    clear member
    induction contacts with
    | nil => exact fun start member => .inl member
    | cons c contacts ih =>
        intro start member
        rcases ih _ member with before | ⟨⟨other, inside, same⟩, sent⟩
        · rcases eq_or_mem_of_mem_assign before with rfl | ⟨before, -⟩
          · exact .inr ⟨⟨c, List.mem_cons_self, rfl⟩, rfl⟩
          · exact .inl before
        · exact .inr ⟨⟨other, .tail _ inside, same⟩, sent⟩
  rcases folded [] member with impossible | found
  · cases impossible
  · exact found

theorem Conversation.Accounted.askedAbout (accounted : conversation.Accounted inputs outbox key)
    (sent : ∀ c ∈ conversation.contacts.list,
      (c.id, ServiceMessage.askContactReq key id) ∈ outbox) :
    (conversation.askedAbout id).Accounted inputs outbox key where
  named := accounted.named
  nonempty := accounted.nonempty
  indexed := accounted.indexed
  asked add pending request member := by
    rcases eq_or_mem_of_mem_assign pending with rfl | ⟨before, -⟩
    · obtain ⟨⟨c, contact, same⟩, state⟩ := mem_sentRequests _ member
      refine ⟨same ▸ sent c contact, fun know => ?_⟩
      cases state.symm.trans know
    · exact accounted.asked add before request member

theorem knowContact_contacts (state : ReqState) :
    (conversation.knowContact id source state).contacts = conversation.contacts := by
  rw [Conversation.knowContact]
  split
  · rfl
  · split <;> rfl

theorem knowContact_id (state : ReqState) :
    (conversation.knowContact id source state).id = conversation.id := by
  rw [Conversation.knowContact]
  split
  · rfl
  · split <;> rfl

theorem lookup_knowContact {state : ReqState} {add : PendingContactAdd}
    (found : (conversation.knowContact id source state).pendingAdds.lookup id = some add) :
    ∃ old, conversation.pendingAdds.lookup id = some old ∧
      add.requests.map (·.1) = old.requests.map (·.1) := by
  rw [Conversation.knowContact] at found
  cases pending : conversation.pendingAdds.lookup id with
  | none =>
      simp only [pending] at found
      cases found
  | some old =>
      refine ⟨old, rfl, ?_⟩
      cases requested : old.requests.lookup source with
      | none =>
          simp only [pending, requested] at found
          cases found
          rfl
      | some request =>
          simp only [pending, requested, lookup_assign_self] at found
          cases found
          exact keys_assign_of_mem (List.mem_map_of_mem (mem_of_lookup requested))

theorem Conversation.Accounted.knowContact (accounted : conversation.Accounted inputs outbox key)
    (source id : String) (state : ReqState) (given : state = .know →
      ServiceInput.askContactRes source key id 1 ∈ inputs) :
    (conversation.knowContact id source state).Accounted inputs outbox key := by
  rw [Conversation.knowContact]
  split
  · exact accounted
  · rename_i add found
    split
    · exact accounted
    · rename_i request requested
      have old := accounted.asked _ (mem_of_lookup found)
      refine ⟨accounted.named, accounted.nonempty, accounted.indexed,
        fun other pending filed member => ?_⟩
      rcases eq_or_mem_of_mem_assign pending with rfl | ⟨before, -⟩
      · rcases eq_or_mem_of_mem_assign member with rfl | ⟨before, -⟩
        · exact ⟨(old _ (mem_of_lookup requested)).1, given⟩
        · exact old filed before
      · exact accounted.asked other before filed member

theorem Conversation.Accounted.removeContact
    (accounted : conversation.Accounted inputs outbox key)
    (success : conversation.removeContact id = .ok after) :
    after.Accounted inputs outbox key := by
  have indexed := accounted.indexed
  by_cases member : id ∈ conversation.contacts.ids
  · obtain ⟨c, -, same, found⟩ := indexed.byId_of_mem member
    have removed := indexed.remove_of_mem (c := c) (same ▸ member)
    simp only [Conversation.removeContact, found, ok_bind, removed, pure_ok] at success
    cases success
    exact ⟨accounted.named, accounted.nonempty, indexed.erased, fun add pending =>
      accounted.asked add (mem_of_mem_unassign pending)⟩
  · simp only [Conversation.removeContact, indexed.byId_of_not_mem member, ok_bind,
      pure_ok] at success
    cases success
    exact ⟨accounted.named, accounted.nonempty, indexed, fun add pending =>
      accounted.asked add (mem_of_mem_unassign pending)⟩

theorem Conversation.Accounted.addContact (accounted : conversation.Accounted inputs outbox key)
    (success : conversation.addContact c = .ok after) :
    after.Accounted inputs outbox key := by
  have indexed := accounted.indexed
  by_cases member : c.id ∈ conversation.contacts.ids
  · simp only [Conversation.addContact, indexed.add_of_mem member, ok_bind, pure_ok] at success
    cases success
    exact ⟨accounted.named, accounted.nonempty, indexed, accounted.asked⟩
  · simp only [Conversation.addContact, indexed.add_of_not_mem member, ok_bind,
      pure_ok] at success
    cases success
    exact ⟨accounted.named, accounted.nonempty, indexed.pushed member, accounted.asked⟩

/-- When everyone asked knows a contact, each of them has answered so. -/
theorem Conversation.Accounted.answered (accounted : conversation.Accounted inputs outbox key)
    {status : CliqueStatus} (decided : conversation.partOfClique id = .ok status)
    (part : status.isPart = .part) : ∃ add, conversation.pendingAdds.lookup id = some add ∧
      add.requests.length = conversation.contacts.list.length ∧
      ∀ contact ∈ add.requests.map (·.1),
        (contact, ServiceMessage.askContactReq key id) ∈ outbox ∧
          ServiceInput.askContactRes contact key id 1 ∈ inputs := by
  rw [Conversation.partOfClique] at decided
  cases found : conversation.pendingAdds.lookup id with
  | none =>
      rw [found] at decided
      cases decided
      cases part
  | some add =>
      simp only [found, accounted.indexed.size_eq, ok_bind, pure_ok] at decided
      split at decided
      · cases decided
        cases part
      · rename_i sizes
        split at decided
        · cases decided
          cases part
        · split at decided
          · rename_i all
            refine ⟨add, rfl, not_not.mp sizes, fun contact member => ?_⟩
            obtain ⟨request, filed, rfl⟩ := List.mem_map.mp member
            have know := List.countP_eq_length.mp all request filed
            have asked := accounted.asked _ (mem_of_lookup found) request filed
            exact ⟨asked.1, asked.2 (beq_iff_eq.mp know)⟩
          · cases decided
            cases part

end Conversation

end Firestr.Conversations
