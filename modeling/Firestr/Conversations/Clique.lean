import Firestr.Conversations.Asked
import Firestr.Library.Runs

/-! Runs of the conversation service, and the contacts that an added contact is
known to. -/

set_option autoImplicit false

namespace Firestr.Conversations

open Firestr.Library.Runs Firestr.User Firestr.Util

/-- What a message handler may do to the service besides its conversations. -/
structure ConversationService.Extends (s next : ConversationService) : Prop where
  conversations : next.conversations = s.conversations
  contacts : next.contacts = s.contacts
  outbox : s.outbox ⊆ next.outbox

namespace ConversationService

section Extends

variable {s between next : ConversationService}

theorem Extends.rfl : s.Extends s := ⟨.refl _, .refl _, List.Subset.refl _⟩

theorem Extends.trans (first : s.Extends between) (second : between.Extends next) :
    s.Extends next where
  conversations := second.conversations.trans first.conversations
  contacts := second.contacts.trans first.contacts
  outbox := List.Subset.trans first.outbox second.outbox

theorem extends_sendEvent (e : ServiceEvent) : s.Extends (s.sendEvent e) :=
  ⟨.refl _, .refl _, List.Subset.refl _⟩

theorem extends_send (receiver : String) (m : ServiceMessage) : s.Extends (s.send receiver m) :=
  ⟨.refl _, .refl _, List.subset_append_left ..⟩

theorem extends_sendAll (contacts : List UserInfo) (m : ServiceMessage) :
    s.Extends (s.sendAll contacts m) :=
  ⟨.refl _, .refl _, List.subset_append_left ..⟩

theorem extends_requestApps (source : String) (conversation : Conversation) (apps : List String) :
    s.Extends (s.requestApps source conversation apps) := by
  rw [requestApps]
  induction apps generalizing s with
  | nil => exact .rfl
  | cons address apps ih =>
      rw [List.foldl_cons]
      refine Extends.trans ?_ ih
      split
      · exact extends_sendAll ..
      · exact extends_send ..

end Extends

section Add

variable {inputs : List ServiceInput} {s next : ConversationService} {key id : String}
  {conversation after : Conversation} {c : UserInfo}

theorem fireNewConversationEvent_ok (success : s.fireNewConversationEvent id = .ok next) :
    s.Extends next := by
  obtain ⟨_, -, fired⟩ := bind_ok success
  cases fired
  exact extends_sendEvent _

theorem addContactToConversationP_ok
    (accounted : conversation.Accounted inputs s.outbox key)
    (success : s.addContactToConversationP c conversation = .ok (next, after)) :
    s.Extends next ∧ after.Accounted inputs next.outbox key := by
  obtain ⟨known, -, success⟩ := bind_ok success
  split at success
  · cases success
    exact ⟨.rfl, accounted⟩
  · obtain ⟨larger, added, success⟩ := bind_ok success
    obtain ⟨synced, fired, success⟩ := bind_ok success
    obtain ⟨_, -, fired⟩ := bind_ok fired
    cases fired
    obtain ⟨told, fired, success⟩ := bind_ok success
    obtain ⟨_, -, fired⟩ := bind_ok fired
    obtain ⟨_, -, fired⟩ := bind_ok fired
    cases fired
    cases success
    have grows : s.Extends (((s.syncExistingConversation after).sendEvent
        (.conversationSynced after.id)).sendEvent (.contactAdded after.id c.id)) :=
      (extends_sendAll ..).trans ((extends_sendEvent _).trans (extends_sendEvent _))
    exact ⟨grows, (accounted.addContact added).mono (List.Subset.refl _) grows.outbox⟩

private theorem askAbout_ok (accounted : conversation.Accounted inputs s.outbox key)
    (success : s.askAbout id conversation = .ok (next, after)) :
    s.Extends next ∧ after.Accounted inputs next.outbox key := by
  obtain ⟨_, -, asked⟩ := bind_ok success
  cases asked
  have grows := extends_sendAll (s := s) conversation.contacts.list
    (.askContactReq conversation.id id)
  refine ⟨grows, (accounted.mono (List.Subset.refl _) grows.outbox).askedAbout ?_⟩
  intro c member
  rw [← accounted.named]
  exact List.mem_append_right _ (List.mem_map.mpr ⟨c, member, rfl⟩)

theorem addContactToConversation_ok
    (accounted : conversation.Accounted inputs s.outbox key)
    (success : s.addContactToConversation c conversation = .ok (next, after)) :
    s.Extends next ∧ after.Accounted inputs next.outbox key := by
  obtain ⟨known, -, success⟩ := bind_ok success
  split at success
  · cases success
    exact ⟨.rfl, accounted⟩
  · split at success
    · exact addContactToConversationP_ok accounted success
    · exact askAbout_ok accounted success

theorem addContacts_ok (contacts : List UserInfo)
    (accounted : conversation.Accounted inputs s.outbox key)
    (success : addContacts contacts s conversation = .ok (next, after)) :
    s.Extends next ∧ after.Accounted inputs next.outbox key := by
  induction contacts generalizing s conversation with
  | nil =>
      cases success
      exact ⟨.rfl, accounted⟩
  | cons c contacts ih =>
      obtain ⟨⟨between, larger⟩, added, success⟩ := bind_ok success
      obtain ⟨first, accounted⟩ := addContactToConversation_ok accounted added
      obtain ⟨second, accounted⟩ := ih accounted success
      exact ⟨first.trans second, accounted⟩

end Add

end ConversationService

/-- Every conversation of the service accounts for its requests. -/
structure ServiceInvariant (inputs : List ServiceInput) (s : ConversationService) : Prop where
  contacts : s.contacts.Indexed
  conversations : ∀ key conversation, s.conversations key = some conversation →
    conversation.Accounted inputs s.outbox key

section Invariant

variable {inputs more : List ServiceInput} {s between next : ConversationService}
  {key : String} {conversation : Conversation}

theorem ServiceInvariant.mono (invariant : ServiceInvariant inputs s) (given : inputs ⊆ more) :
    ServiceInvariant more s where
  contacts := invariant.contacts
  conversations key conversation found :=
    (invariant.conversations key conversation found).mono given (List.Subset.refl _)

theorem ServiceInvariant.extends (invariant : ServiceInvariant inputs s)
    (grows : s.Extends next) : ServiceInvariant inputs next where
  contacts := grows.contacts ▸ invariant.contacts
  conversations key conversation found :=
    (invariant.conversations key conversation (grows.conversations ▸ found)).mono
      (List.Subset.refl _) grows.outbox

theorem ServiceInvariant.put (invariant : ServiceInvariant inputs s)
    (accounted : conversation.Accounted inputs s.outbox key) :
    ServiceInvariant inputs (s.put conversation) where
  contacts := invariant.contacts
  conversations other found here := by
    rw [ConversationService.put_apply, accounted.named] at here
    split at here
    · rename_i same
      cases here
      exact same ▸ accounted
    · exact invariant.conversations other found here

theorem ServiceInvariant.erase (invariant : ServiceInvariant inputs s) (id : String) :
    ServiceInvariant inputs
      { s with conversations := Function.update s.conversations id none } where
  contacts := invariant.contacts
  conversations key conversation here := by
    by_cases same : key = id
    · subst same
      exact absurd here (by simp)
    · exact invariant.conversations key conversation (by
        simpa [Function.update_of_ne same] using here)

theorem ServiceInvariant.extends_put (invariant : ServiceInvariant inputs s)
    (grows : s.Extends next) (accounted : conversation.Accounted inputs next.outbox key) :
    ServiceInvariant inputs (next.put conversation) :=
  (invariant.extends grows).put accounted

open ConversationService

theorem ServiceInvariant.syncConversation (invariant : ServiceInvariant inputs s)
    {source : String} {contacts : ContactList} {apps : List String}
    (success : s.syncConversation source key contacts apps = .ok next) :
    ServiceInvariant inputs next := by
  obtain ⟨conversation, found, success⟩ := bind_ok success
  have accounted : conversation.Accounted inputs s.outbox key := by
    cases here : s.conversations key with
    | none =>
        rw [here] at found
        exact .new found
    | some old =>
        rw [here] at found
        cases found
        exact invariant.conversations key conversation here
  obtain ⟨⟨between, larger⟩, added, success⟩ := bind_ok success
  obtain ⟨grows, accounted⟩ := addContacts_ok contacts.list accounted added
  obtain ⟨told, fired, success⟩ := bind_ok success
  cases success
  have tells : between.Extends told := by
    split at fired
    · exact fireNewConversationEvent_ok fired
    · cases fired
      exact .rfl
  have all := grows.trans (tells.trans (extends_requestApps source larger
    (apps.filter fun app => app ∉ larger.apps)))
  have later := tells.trans (extends_requestApps source larger
    (apps.filter fun app => app ∉ larger.apps))
  exact invariant.extends_put all (accounted.mono (List.Subset.refl _) later.outbox)

theorem ServiceInvariant.askContactRes (invariant : ServiceInvariant inputs s)
    {source conversationId id : String} {status : Int}
    (given : status = 1 → ServiceInput.askContactRes source conversationId id 1 ∈ inputs)
    (success : s.receivedAskContactRes source conversationId id status = .ok next) :
    ServiceInvariant inputs next := by
  obtain ⟨sender, -, success⟩ := bind_ok success
  cases sender with
  | none =>
      cases success
      exact invariant
  | some contact =>
      obtain ⟨about, -, success⟩ := bind_ok success
      cases about with
      | none =>
          cases success
          exact invariant
      | some c =>
          cases found : s.conversations conversationId with
          | none =>
              simp only [found] at success
              cases success
              exact invariant
          | some conversation =>
              simp only [found] at success
              obtain ⟨part, -, success⟩ := bind_ok success
              have accounted :=
                (invariant.conversations _ _ found).knowContact source id
                (if status = 1 then .know else .dontKnow) (by
                  split
                  · rename_i one
                    exact fun _ => given one
                  · nofun)
              split at success
              · obtain ⟨⟨between, larger⟩, added, success⟩ := bind_ok success
                cases success
                obtain ⟨grows, accounted⟩ := addContactToConversationP_ok accounted added
                exact invariant.extends_put grows accounted
              · obtain ⟨_, -, fired⟩ := bind_ok success
                obtain ⟨_, -, fired⟩ := bind_ok fired
                obtain ⟨_, -, fired⟩ := bind_ok fired
                cases fired
                exact (invariant.put accounted).extends (extends_sendEvent _)
              · cases success
                exact invariant.put accounted

theorem ServiceInvariant.quit (invariant : ServiceInvariant inputs s)
    {source conversationId : String} (success : s.receivedQuit source conversationId = .ok next) :
    ServiceInvariant inputs next := by
  obtain ⟨sender, -, success⟩ := bind_ok success
  cases sender with
  | none =>
      cases success
      exact invariant
  | some contact =>
      cases found : s.conversations conversationId with
      | none =>
          simp only [found] at success
          cases success
          exact invariant
      | some conversation =>
          simp only [found] at success
          obtain ⟨smaller, removed, success⟩ := bind_ok success
          obtain ⟨_, -, fired⟩ := bind_ok success
          obtain ⟨_, -, fired⟩ := bind_ok fired
          cases fired
          have accounted := (invariant.conversations _ _ found).removeContact removed
          exact (invariant.put accounted).extends (extends_sendEvent _)

theorem ServiceInvariant.contactDisconnected (invariant : ServiceInvariant inputs s)
    {conversationId id : String}
    (success : s.receivedContactDisconnected conversationId id = .ok next) :
    ServiceInvariant inputs next := by
  rw [receivedContactDisconnected] at success
  cases found : s.conversations conversationId with
  | none =>
      rw [found] at success
      cases success
      exact invariant
  | some conversation =>
      rw [found] at success
      obtain ⟨member, -, success⟩ := bind_ok success
      cases member with
      | none =>
          cases success
          exact invariant
      | some contact =>
          obtain ⟨smaller, removed, success⟩ := bind_ok success
          cases success
          exact invariant.put ((invariant.conversations _ _ found).removeContact removed)

theorem ServiceInvariant.askContactReq (invariant : ServiceInvariant inputs s)
    (source conversationId id : String) :
    ServiceInvariant inputs (s.receivedAskContactReq source conversationId id) := by
  rw [receivedAskContactReq]
  split
  · split
    · exact invariant
    · exact invariant.extends (extends_send ..)
  · exact invariant

theorem ServiceInvariant.sync (invariant : ServiceInvariant inputs s)
    {source conversationId : String} {contacts apps : List String}
    (success : s.receivedSync source conversationId contacts apps = .ok next) :
    ServiceInvariant inputs next := by
  obtain ⟨sender, -, success⟩ := bind_ok success
  cases sender with
  | none =>
      cases success
      exact invariant
  | some contact =>
      obtain ⟨others, -, success⟩ := bind_ok success
      obtain ⟨list, -, success⟩ := bind_ok success
      exact invariant.syncConversation success

theorem ServiceInvariant.addContact (invariant : ServiceInvariant inputs s)
    {conversationId : String} {c : UserInfo}
    (success : s.addContact conversationId c = .ok next) : ServiceInvariant inputs next := by
  rw [ConversationService.addContact] at success
  cases found : s.conversations conversationId with
  | none =>
      rw [found] at success
      cases success
      exact invariant
  | some conversation =>
      rw [found] at success
      obtain ⟨⟨between, larger⟩, added, success⟩ := bind_ok success
      cases success
      obtain ⟨grows, accounted⟩ :=
        addContactToConversation_ok (invariant.conversations _ _ found) added
      exact invariant.extends_put grows accounted

theorem ServiceInvariant.quitConversation (invariant : ServiceInvariant inputs s)
    {id : String} (success : s.quitConversation id = .ok next) : ServiceInvariant inputs next := by
  rw [ConversationService.quitConversation] at success
  cases found : s.conversations id with
  | none =>
      rw [found] at success
      cases success
      exact invariant
  | some conversation =>
      rw [found] at success
      obtain ⟨_, -, fired⟩ := bind_ok success
      cases fired
      have sent := invariant.extends (extends_sendAll (s := s) conversation.contacts.list
        (.quitConversation conversation.id))
      exact (sent.erase id).extends (extends_sendEvent _)

end Invariant

/-- The user's contacts are kept in an indexed list. -/
def ServiceInput.Allowed : ServiceInput → Prop
  | .changeContacts contacts => contacts.Indexed
  | _ => True

inductive ServiceStep (condition : ConversationService → ServiceInput → Prop) :
    ConversationService → ServiceInput → ConversationService → Prop where
  | run {s next : ConversationService} {input : ServiceInput} : condition s input →
      input.Allowed → input.run s = .ok next → ServiceStep condition s input next

/-- The runs of a service that has no conversation yet. -/
abbrev ServiceRun (condition : ConversationService → ServiceInput → Prop) :
    List ServiceInput → ConversationService → Prop :=
  Run (fun s => ∃ self contacts, contacts.Indexed ∧ s = { self := self, contacts := contacts })
    (ServiceStep condition)

section Runs

variable {condition : ConversationService → ServiceInput → Prop} {inputs : List ServiceInput}
  {s next : ConversationService}

theorem ServiceInvariant.step (invariant : ServiceInvariant inputs s) {input : ServiceInput}
    (allowed : input.Allowed) (success : input.run s = .ok next) :
    ServiceInvariant (inputs ++ [input]) next := by
  have kept : ServiceInvariant (inputs ++ [input]) s :=
    invariant.mono (List.subset_append_left ..)
  cases input with
  | sync source conversationId contacts apps => exact kept.sync success
  | quit source conversationId => exact kept.quit success
  | askContactReq source conversationId id =>
      cases success
      exact kept.askContactReq ..
  | askContactRes source conversationId id status =>
      refine kept.askContactRes ?_ success
      rintro rfl
      exact List.mem_append_right _ List.mem_cons_self
  | contactDisconnected conversationId id => exact kept.contactDisconnected success
  | createConversation id contacts => exact kept.syncConversation success
  | quitConversation id => exact kept.quitConversation success
  | addContact conversationId c => exact kept.addContact success
  | changeContacts contacts =>
      cases success
      exact ⟨allowed, kept.conversations⟩

theorem serviceInvariant_of_run (run : ServiceRun condition inputs s) :
    ServiceInvariant inputs s := by
  induction run with
  | start started =>
      obtain ⟨self, contacts, indexed, rfl⟩ := started
      exact ⟨indexed, fun key conversation found => by cases found⟩
  | step _ step ih =>
      cases step with
      | run _ allowed success => exact ih.step allowed success

/-- When an answer meets as many requests as there are contacts, they are the
requests to these contacts. -/
def RequestsCover (s : ConversationService) : ServiceInput → Prop
  | .askContactRes _ conversationId id _ => ∀ conversation add,
      s.conversations conversationId = some conversation →
      conversation.pendingAdds.lookup id = some add →
      add.requests.length = conversation.contacts.list.length →
      ∀ contact ∈ conversation.contacts.ids, contact ∈ add.requests.map (·.1)
  | _ => True

/-- A response that adds a contact finds every contact of the conversation
asked about it, and told so by each of them. -/
theorem added_contact_known (run : ServiceRun RequestsCover inputs s)
    {source key id : String} {status : Int}
    (step : ServiceStep RequestsCover s (.askContactRes source key id status) next)
    {before after : Conversation} (found : s.conversations key = some before)
    (result : next.conversations key = some after) (fresh : id ∉ before.contacts.ids)
    (added : id ∈ after.contacts.ids) :
    ∀ contact ∈ before.contacts.ids,
      (contact, ServiceMessage.askContactReq key id) ∈ s.outbox ∧
        ServiceInput.askContactRes contact key id 1 ∈
          inputs ++ [.askContactRes source key id status] := by
  have invariant := (serviceInvariant_of_run run).mono
    (List.subset_append_left inputs [.askContactRes source key id status])
  -- Only the branch of a clique changes the contacts of the conversation.
  have changed : ∀ other, next.conversations key = some other →
      other.contacts ≠ before.contacts := by
    intro other here same
    cases here.symm.trans result
    rw [same] at added
    exact fresh added
  cases step with
  | run cover _ success =>
      obtain ⟨sender, -, success⟩ := bind_ok success
      cases sender with
      | none =>
          cases success
          exact absurd rfl (changed before found)
      | some contact =>
          obtain ⟨about, -, success⟩ := bind_ok success
          cases about with
          | none =>
              cases success
              exact absurd rfl (changed before found)
          | some c =>
              simp only [found] at success
              obtain ⟨part, decided, success⟩ := bind_ok success
              have accounted := (invariant.conversations key before found).knowContact
                source id (if status = 1 then .know else .dontKnow) (by
                  split
                  · rename_i one
                    subst one
                    exact fun _ => List.mem_append_right _ List.mem_cons_self
                  · nofun)
              have put : ∀ state : ReqState,
                  (s.put (before.knowContact id source state)).conversations key =
                    some (before.knowContact id source state) := fun state => by
                rw [ConversationService.put_apply, if_pos]
                rw [knowContact_id]
                exact (invariant.conversations key before found).named.symm
              split at success
              · rename_i isPart
                obtain ⟨add, pending, sizes, answered⟩ := accounted.answered decided isPart
                obtain ⟨old, asked, keys⟩ := lookup_knowContact pending
                have lengths := congrArg List.length keys
                rw [List.length_map, List.length_map] at lengths
                rw [knowContact_contacts] at sizes
                rw [keys] at answered
                exact fun contact member => answered contact
                  (cover before old found asked (lengths.symm.trans sizes) contact member)
              · obtain ⟨_, -, fired⟩ := bind_ok success
                obtain ⟨_, -, fired⟩ := bind_ok fired
                obtain ⟨_, -, fired⟩ := bind_ok fired
                cases fired
                exact absurd (knowContact_contacts _) (changed _ (put _))
              · cases success
                exact absurd (knowContact_contacts _) (changed _ (put _))

end Runs

section Latecomer

def knownUsers : ContactList :=
  valueD {} (PointerList.ofUsers UserInfo.id [⟨"ann"⟩, ⟨"bob"⟩, ⟨"cat"⟩, ⟨"eve"⟩])

theorem knownUsers_indexed : knownUsers.Indexed :=
  .ofUsers (ok_valueD (by decide +kernel))

/-- The service after inputs, as long as they violate no contract. -/
def afterInputs (inputs : List ServiceInput) : ConversationService :=
  inputs.foldl (fun s input => valueD s (input.run s)) { self := "me", contacts := knownUsers }

variable {condition : ConversationService → ServiceInput → Prop} {inputs : List ServiceInput}

theorem afterInputs_step (input : ServiceInput)
    (met : condition (afterInputs inputs) input) (allowed : input.Allowed)
    (success : (input.run (afterInputs inputs)).isOk = true) :
    ServiceStep condition (afterInputs inputs) input (afterInputs (inputs ++ [input])) := by
  refine .run met allowed ?_
  rw [ok_valueD success, afterInputs, afterInputs,
    List.foldl_append]
  rfl

theorem afterInputs_run
    (met : ∀ n (inside : n < inputs.length), condition (afterInputs (inputs.take n)) inputs[n])
    (allowed : ∀ input ∈ inputs, input.Allowed)
    (success : ∀ n (inside : n < inputs.length),
      (inputs[n].run (afterInputs (inputs.take n))).isOk = true) :
    ServiceRun condition inputs (afterInputs inputs) := by
  have prefixes : ∀ n ≤ inputs.length,
      ServiceRun condition (inputs.take n) (afterInputs (inputs.take n)) := by
    intro n
    induction n with
    | zero => exact fun _ => .start ⟨_, _, knownUsers_indexed, rfl⟩
    | succ n ih =>
        intro inside
        rw [List.take_succ_eq_append_getElem inside]
        exact (ih (Nat.le_of_lt inside)).step (afterInputs_step _ (met n inside)
          (allowed _ (List.getElem_mem inside)) (success n inside))
  have whole := prefixes inputs.length le_rfl
  rwa [List.take_length] at whole

/-- `ann` and `bob` in a conversation. -/
def pairInputs : List ServiceInput := [.sync "ann" "talk" [] [], .sync "bob" "talk" [] []]

theorem added_contact_known_pair :
    ("ann", ServiceMessage.askContactReq "talk" "bob") ∈ (afterInputs pairInputs).outbox ∧
      ServiceInput.askContactRes "ann" "talk" "bob" 1 ∈
        pairInputs ++ [.askContactRes "ann" "talk" "bob" 1] := by
  have run : ServiceRun RequestsCover pairInputs (afterInputs pairInputs) := by
    refine afterInputs_run (fun n inside => ?_) (fun input member => ?_) (by decide +kernel)
    · match n, inside with
      | 0, _ => trivial
      | 1, _ => trivial
    · simp only [pairInputs, List.mem_cons, List.not_mem_nil, or_false] at member
      rcases member with rfl | rfl <;> trivial
  have contacts : ((afterInputs pairInputs).conversations "talk").map (·.contacts.ids) =
      some ["ann"] := by decide +kernel
  have requests : ((afterInputs pairInputs).conversations "talk").bind
      (fun conversation => (conversation.pendingAdds.lookup "bob").map (·.requests.map (·.1))) =
        some ["ann"] := by decide +kernel
  have grown : ((afterInputs (pairInputs ++
      [.askContactRes "ann" "talk" "bob" 1])).conversations "talk").map (·.contacts.ids) =
        some ["ann", "bob"] := by decide +kernel
  obtain ⟨before, found, ids⟩ := Option.map_eq_some_iff.mp contacts
  obtain ⟨after, result, larger⟩ := Option.map_eq_some_iff.mp grown
  have step := @afterInputs_step RequestsCover pairInputs
    (.askContactRes "ann" "talk" "bob" 1) (by
      intro conversation add here pending _ contact member
      rw [here, Option.bind_some, pending, Option.map_some] at requests
      rw [here, Option.map_some] at contacts
      rw [Option.some.inj requests, ← Option.some.inj contacts]
      exact member) trivial (by decide +kernel)
  exact added_contact_known run step found result (by rw [ids]; decide) (by rw [larger]; decide)
    "ann" (by rw [ids]; decide)

/-- A conversation that asks about `eve` while `cat` joins: `ann` leaves after
she answered, so that the two who were asked are as many as the two who are left. -/
def latecomerInputs : List ServiceInput :=
  pairInputs ++ [.askContactRes "ann" "talk" "bob" 1, .sync "eve" "talk" [] [],
    .sync "cat" "talk" [] [], .askContactRes "ann" "talk" "cat" 1,
    .askContactRes "bob" "talk" "cat" 1, .askContactRes "ann" "talk" "eve" 1, .quit "ann" "talk"]

theorem latecomer_never_asked : ServiceRun (fun _ _ => True) latecomerInputs
      (afterInputs latecomerInputs) ∧
    ∃ next, ServiceStep (fun _ _ => True) (afterInputs latecomerInputs)
        (.askContactRes "bob" "talk" "eve" 1) next ∧
      ((afterInputs latecomerInputs).conversations "talk").map (·.contacts.ids) =
        some ["bob", "cat"] ∧
      (next.conversations "talk").map (·.contacts.ids) = some ["bob", "cat", "eve"] ∧
      ("cat", ServiceMessage.askContactReq "talk" "eve") ∉
        (afterInputs latecomerInputs).outbox := by
  refine ⟨?_, _, afterInputs_step _ trivial trivial (by decide +kernel), by decide +kernel,
    by decide +kernel, by decide +kernel⟩
  refine afterInputs_run (fun _ _ => trivial) ?_ (by decide +kernel)
  intro input member
  simp only [latecomerInputs, pairInputs, List.cons_append, List.nil_append, List.mem_cons,
    List.not_mem_nil, or_false] at member
  rcases member with rfl | rfl | rfl | rfl | rfl | rfl | rfl | rfl | rfl <;> trivial

end Latecomer

end Firestr.Conversations
