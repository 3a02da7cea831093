import Firestr.Conversations.Changes

/-! Conversations without contacts. One can be filled again unless an addition
is still pending, which nobody is left to answer. -/

set_option autoImplicit false

namespace Firestr.Conversations

open Firestr.Library.Assoc Firestr.Library.Runs Firestr.User Firestr.Util

/-- A conversation without contacts has no pending addition. -/
def Conversation.Settled (conversation : Conversation) : Prop :=
  conversation.contacts.list = [] → conversation.pendingAdds = []

/-- When the contact is the last one, no addition of anyone else is pending. -/
def Conversation.LeavesSettled (conversation : Conversation) (id : String) : Prop :=
  conversation.contacts.ids = [id] → ∀ add ∈ conversation.pendingAdds, add.1 = id

/-- A contact that quits or disconnects leaves its conversation settled. -/
def SettledLeaves (s : ConversationService) : ServiceInput → Prop
  | .quit source conversationId => ∀ conversation,
      s.conversations conversationId = some conversation → conversation.LeavesSettled source
  | .contactDisconnected conversationId id => ∀ conversation,
      s.conversations conversationId = some conversation → conversation.LeavesSettled id
  | _ => True

section Settled

open ConversationService

variable {inputs : List ServiceInput} {outbox : List (String × ServiceMessage)}
  {s between next : ConversationService} {key id : String} {conversation after : Conversation}
  {c : UserInfo}

theorem ids_eq_nil_iff {l : ContactList} : l.ids = [] ↔ l.list = [] := List.map_eq_nil_iff

private theorem not_settling (member : id ∈ conversation.contacts.ids) :
    conversation.Settled := by
  intro empty
  rw [ids_eq_nil_iff.mpr empty] at member
  cases member

/-- The contact is there after `add_contact_to_conversation_p`. -/
theorem addContactToConversationP_mem (accounted : conversation.Accounted inputs outbox key)
    (success : s.addContactToConversationP c conversation = .ok (next, after)) :
    c.id ∈ after.contacts.ids := by
  have indexed := accounted.indexed
  obtain ⟨known, looked, success⟩ := bind_ok success
  by_cases member : c.id ∈ conversation.contacts.ids
  · obtain ⟨_, -, -, here⟩ := indexed.byId_of_mem member
    cases here.symm.trans looked
    cases success
    exact member
  · cases (indexed.byId_of_not_mem member).symm.trans looked
    obtain ⟨larger, added, success⟩ := bind_ok success
    obtain ⟨synced, fired, success⟩ := bind_ok success
    obtain ⟨told, fired, success⟩ := bind_ok success
    cases success
    simp only [Conversation.addContact, indexed.add_of_not_mem member, ok_bind, pure_ok] at added
    cases added
    rw [PointerList.ids_pushed]
    exact List.mem_append_right _ List.mem_cons_self

private theorem addContactToConversation_settled
    (accounted : conversation.Accounted inputs s.outbox key) (settled : conversation.Settled)
    (success : s.addContactToConversation c conversation = .ok (next, after)) :
    after.Settled := by
  obtain ⟨known, -, success⟩ := bind_ok success
  split at success
  · cases success
    exact settled
  · split at success
    · exact not_settling (addContactToConversationP_mem accounted success)
    · rename_i blocked
      obtain ⟨_, -, asked⟩ := bind_ok success
      cases asked
      intro empty
      -- Without contacts the conversation has nothing pending and adds at once.
      have free : (conversation.contacts.empty && conversation.pendingAdds.isEmpty) = true := by
        rw [PointerList.empty, settled empty]
        change (conversation.contacts.list.isEmpty && true) = true
        rw [show conversation.contacts.list = [] from empty]
        rfl
      exact absurd free blocked

private theorem addContacts_settled (contacts : List UserInfo)
    (accounted : conversation.Accounted inputs s.outbox key) (settled : conversation.Settled)
    (success : addContacts contacts s conversation = .ok (next, after)) : after.Settled := by
  induction contacts generalizing s conversation with
  | nil =>
      cases success
      exact settled
  | cons c contacts ih =>
      obtain ⟨⟨between, larger⟩, added, success⟩ := bind_ok success
      obtain ⟨-, later⟩ := addContactToConversation_ok accounted added
      exact ih later (addContactToConversation_settled accounted settled added) success

private theorem removeContact_settled (accounted : conversation.Accounted inputs outbox key)
    (settled : conversation.Settled) (leaves : conversation.LeavesSettled id)
    (success : conversation.removeContact id = .ok after) : after.Settled := by
  have indexed := accounted.indexed
  by_cases member : id ∈ conversation.contacts.ids
  · obtain ⟨c, -, same, found⟩ := indexed.byId_of_mem member
    have removed := indexed.remove_of_mem (c := c) (same ▸ member)
    simp only [Conversation.removeContact, found, ok_bind, removed, pure_ok] at success
    cases success
    intro empty
    have last : conversation.contacts.ids.erase id = [] := by
      rw [← same, ← PointerList.ids_erased]
      exact ids_eq_nil_iff.mpr empty
    have alone : conversation.contacts.ids = [id] := by
      rcases List.erase_eq_nil_iff.mp last with none? | alone
      · rw [none?] at member
        cases member
      · exact alone
    change unassign conversation.pendingAdds id = []
    refine List.filter_eq_nil_iff.mpr fun add pending => ?_
    simp [leaves alone add pending]
  · simp only [Conversation.removeContact, indexed.byId_of_not_mem member, ok_bind,
      pure_ok] at success
    cases success
    intro empty
    change unassign conversation.pendingAdds id = []
    rw [settled empty]
    rfl

private theorem knowContact_settled (settled : conversation.Settled) (source : String)
    (state : ReqState) : (conversation.knowContact id source state).Settled := by
  intro empty
  rw [knowContact_contacts] at empty
  have nothing := settled empty
  have unknown : conversation.pendingAdds.lookup id = none := by
    rw [nothing]
    rfl
  rw [Conversation.knowContact, unknown]
  exact nothing

private theorem changes_settled (invariant : ServiceInvariant inputs s)
    (settled : ∀ key conversation, s.conversations key = some conversation →
      conversation.Settled) {input : ServiceInput} (leaves : SettledLeaves s input)
    (changes : Changes s key input after) : after.Settled := by
  cases changes with
  | kept found => exact settled key after found
  | filled fills starts added =>
      rename_i before
      rcases starts with old | created
      · exact addContacts_settled _ (invariant.conversations key before old)
          (settled key before old) added
      · have accounted : before.Accounted inputs s.outbox key := .new created
        refine addContacts_settled _ accounted (fun _ => ?_) added
        obtain ⟨_, -, created⟩ := bind_ok created
        cases created
        rfl
  | answered found => exact knowContact_settled (settled key _ found) _ _
  | completed found known decided part added =>
      rename_i source id status c between before _
      have accounted := (((invariant.conversations key before found).mono
        (List.subset_cons_self (.askContactRes source key id 1) inputs)
        (List.Subset.refl _)).knowContact source id
          (if status = 1 then .know else .dontKnow) fun _ => List.mem_cons_self)
      exact not_settling (addContactToConversationP_mem accounted added)
  | quit found removed =>
      exact removeContact_settled (invariant.conversations key _ found) (settled key _ found)
        (leaves _ found) removed
  | disconnected found removed =>
      exact removeContact_settled (invariant.conversations key _ found) (settled key _ found)
        (leaves _ found) removed

theorem settled_of_run (run : ServiceRun SettledLeaves inputs s)
    (found : s.conversations key = some conversation) : conversation.Settled := by
  induction run generalizing key conversation with
  | start started =>
      obtain ⟨self, contacts, -, rfl⟩ := started
      cases found
  | step earlier step ih =>
      cases step with
      | run leaves _ success =>
          have invariant := serviceInvariant_of_run earlier
          exact changes_settled invariant (fun key conversation => ih) leaves
            (run_changes invariant success found)

private theorem byId_of_empty (accounted : conversation.Accounted inputs outbox key)
    (empty : conversation.contacts.list = []) :
    conversation.contacts.byId id = .ok none := by
  apply accounted.indexed.byId_of_not_mem
  rw [ids_eq_nil_iff.mpr empty]
  exact List.not_mem_nil

private theorem filled_of_nothing_pending (accounted : conversation.Accounted inputs s.outbox key)
    (empty : conversation.contacts.list = []) (named : c.id ≠ "")
    (nothing : conversation.pendingAdds = []) : ∃ next after,
      s.addContactToConversation c conversation = .ok (next, after) ∧
        c.id ∈ after.contacts.ids := by
  have free : (conversation.contacts.empty && conversation.pendingAdds.isEmpty) = true := by
    rw [PointerList.empty, empty, nothing]
    rfl
  have fresh : c.id ∉ conversation.contacts.ids := by
    rw [ids_eq_nil_iff.mpr empty]
    exact List.not_mem_nil
  have adds : ∃ next after, s.addContactToConversationP c conversation = .ok (next, after) := by
    have room : (!conversation.id.isEmpty) = true := by
      simp [accounted.nonempty]
    have some? : (!c.id.isEmpty) = true := by
      simp [named]
    simp only [addContactToConversationP, byId_of_empty accounted empty, ok_bind,
      Conversation.addContact, accounted.indexed.add_of_not_mem fresh, pure_ok,
      fireConversationSyncedEvent, fireContactAdded, room, some?, require_true]
    exact ⟨_, _, rfl⟩
  obtain ⟨next, after, success⟩ := adds
  refine ⟨next, after, ?_, addContactToConversationP_mem accounted success⟩
  rw [addContactToConversation, byId_of_empty accounted empty, ok_bind, free]
  exact success

/-- A conversation without contacts takes a new one exactly when no addition is
pending, which is so in every run in which nobody leaves one behind. -/
theorem empty_conversation_filled_iff (run : ServiceRun (fun _ _ => True) inputs s)
    (found : s.conversations key = some conversation)
    (empty : conversation.contacts.list = []) (named : c.id ≠ "") :
    ((∃ next after, s.addContactToConversation c conversation = .ok (next, after) ∧
      c.id ∈ after.contacts.ids) ↔ conversation.pendingAdds = []) ∧
    (ServiceRun SettledLeaves inputs s → conversation.pendingAdds = []) := by
  have accounted := (serviceInvariant_of_run run).conversations key conversation found
  refine ⟨⟨?_, filled_of_nothing_pending accounted empty named⟩,
    fun settled => settled_of_run settled found empty⟩
  rintro ⟨next, after, success, member⟩
  by_contra pending
  have blocked : (conversation.contacts.empty && conversation.pendingAdds.isEmpty) = false := by
    rw [List.isEmpty_eq_false_iff.mpr pending, Bool.and_false]
  rw [addContactToConversation, byId_of_empty accounted empty, ok_bind, blocked] at success
  obtain ⟨_, -, asked⟩ := bind_ok success
  cases asked
  change c.id ∈ conversation.contacts.ids at member
  rw [ids_eq_nil_iff.mpr empty] at member
  cases member

end Settled

/-- `ann` is the only contact of a conversation, and leaves it. -/
def emptiedInputs : List ServiceInput := [.sync "ann" "talk" [] [], .quit "ann" "talk"]

private theorem emptied_run {condition : ConversationService → ServiceInput → Prop}
    (met : ∀ s, condition s (.sync "ann" "talk" [] []))
    (leaves : condition (afterInputs [.sync "ann" "talk" [] []]) (.quit "ann" "talk")) :
    ServiceRun condition emptiedInputs (afterInputs emptiedInputs) := by
  refine afterInputs_run (fun n inside => ?_) (fun input member => ?_) (by decide +kernel)
  · match n, inside with
    | 0, _ => exact met _
    | 1, _ => exact leaves
  · simp only [emptiedInputs, List.mem_cons, List.not_mem_nil, or_false] at member
    rcases member with rfl | rfl <;> trivial

private theorem ann_leaves_settled :
    SettledLeaves (afterInputs [.sync "ann" "talk" [] []]) (.quit "ann" "talk") := by
  have nothing : ((afterInputs [.sync "ann" "talk" [] []]).conversations "talk").map
      (·.pendingAdds) = some [] := by decide +kernel
  intro conversation found _ add pending
  rw [found, Option.map_some] at nothing
  rw [Option.some.inj nothing] at pending
  cases pending

theorem emptied_conversation_filled : ∃ conversation,
    (afterInputs emptiedInputs).conversations "talk" = some conversation ∧
    conversation.contacts.list = [] ∧
    ∃ next after, (afterInputs emptiedInputs).addContactToConversation ⟨"bob"⟩ conversation =
      .ok (next, after) ∧ "bob" ∈ after.contacts.ids := by
  have emptied : ((afterInputs emptiedInputs).conversations "talk").map (·.contacts.list) =
      some [] := by decide +kernel
  obtain ⟨conversation, found, empty⟩ := Option.map_eq_some_iff.mp emptied
  obtain ⟨filled, settled⟩ := empty_conversation_filled_iff
    (emptied_run (fun _ => trivial) trivial) found empty
    (by decide : (⟨"bob"⟩ : UserInfo).id ≠ "")
  exact ⟨conversation, found, empty,
    filled.mpr (settled (emptied_run (fun _ => trivial) ann_leaves_settled))⟩

/-- `ann` is asked about `bob`, and leaves without an answer. -/
def blockedInputs : List ServiceInput :=
  [.sync "ann" "talk" [] [], .addContact "talk" ⟨"bob"⟩, .quit "ann" "talk"]

/-- The conversation that `ann` left takes neither `bob` nor anyone else. -/
theorem blocked_conversation_not_filled :
    ServiceRun (fun _ _ => True) blockedInputs (afterInputs blockedInputs) ∧
    ∃ conversation, (afterInputs blockedInputs).conversations "talk" = some conversation ∧
      conversation.contacts.list = [] ∧
      ∃ next after, (afterInputs blockedInputs).addContactToConversation ⟨"cat"⟩ conversation =
        .ok (next, after) ∧ "cat" ∉ after.contacts.ids := by
  constructor
  · refine afterInputs_run (fun _ _ => trivial) (fun input member => ?_) (by decide +kernel)
    simp only [blockedInputs, List.mem_cons, List.not_mem_nil, or_false] at member
    rcases member with rfl | rfl | rfl <;> trivial
  · have blocked : ((afterInputs blockedInputs).conversations "talk").map
        (fun conversation => (conversation.contacts.list,
          ((afterInputs blockedInputs).addContactToConversation ⟨"cat"⟩ conversation).toOption.map
            fun result => decide ("cat" ∈ result.2.contacts.ids))) =
          some ([], some false) := by decide +kernel
    obtain ⟨conversation, found, fields⟩ := Option.map_eq_some_iff.mp blocked
    obtain ⟨empty, asked⟩ := Prod.mk.inj fields
    refine ⟨conversation, found, empty, ?_⟩
    cases result : (afterInputs blockedInputs).addContactToConversation ⟨"cat"⟩ conversation with
    | error fault =>
        rw [result] at asked
        cases asked
    | ok result' =>
        rw [result] at asked
        exact ⟨_, _, rfl, of_decide_eq_false (Option.some.inj asked)⟩

end Firestr.Conversations
