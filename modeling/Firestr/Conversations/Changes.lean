import Firestr.Conversations.Clique

/-! What one input of the conversation service can do to a conversation. -/

set_option autoImplicit false

namespace Firestr.Conversations

open Firestr.User Firestr.Util

/-- The inputs that name contacts to fill a conversation with. -/
def ServiceInput.Fills : ServiceInput → Prop
  | .sync .. | .createConversation .. | .addContact .. => True
  | _ => False

/-- The conversation under a key after an input: as it was, filled with
contacts, told of an answer, or without a contact. -/
inductive Changes (s : ConversationService) (key : String) :
    ServiceInput → Conversation → Prop where
  | kept {input : ServiceInput} {after : Conversation} :
      s.conversations key = some after → Changes s key input after
  | filled {input : ServiceInput} {contacts : List UserInfo} {between : ConversationService}
      {before after : Conversation} : input.Fills →
      (s.conversations key = some before ∨ Conversation.new key = .ok before) →
      ConversationService.addContacts contacts s before = .ok (between, after) →
      Changes s key input after
  | answered {source id : String} {status : Int} {before : Conversation} :
      s.conversations key = some before →
      Changes s key (.askContactRes source key id status)
        (before.knowContact id source (if status = 1 then .know else .dontKnow))
  | completed {source id : String} {status : Int} {c : UserInfo} {between : ConversationService}
      {before after : Conversation} {part : CliqueStatus} : s.conversations key = some before →
      s.contacts.byId id = .ok (some c) →
      (before.knowContact id source (if status = 1 then .know else .dontKnow)).partOfClique id =
        .ok part → part.isPart = .part →
      s.addContactToConversationP c
        (before.knowContact id source (if status = 1 then .know else .dontKnow)) =
          .ok (between, after) →
      Changes s key (.askContactRes source key id status) after
  | quit {source : String} {before after : Conversation} : s.conversations key = some before →
      before.removeContact source = .ok after → Changes s key (.quit source key) after
  | disconnected {id : String} {before after : Conversation} :
      s.conversations key = some before → before.removeContact id = .ok after →
      Changes s key (.contactDisconnected key id) after

section Changes

open ConversationService

variable {inputs : List ServiceInput} {s between next : ConversationService} {key id : String}
  {conversation after : Conversation} {input : ServiceInput}

private theorem put_cases (found : (s.put conversation).conversations key = some after) :
    (key = conversation.id ∧ conversation = after) ∨ s.conversations key = some after := by
  rw [put_apply] at found
  split at found
  · rename_i same
    exact .inl ⟨same, Option.some.inj found⟩
  · exact .inr found

private theorem addContacts_single {c : UserInfo}
    (success : s.addContactToConversation c conversation = .ok (between, after)) :
    addContacts [c] s conversation = .ok (between, after) := by
  rw [addContacts, success]
  rfl

private theorem syncConversation_changes (invariant : ServiceInvariant inputs s)
    {source : String} {contacts : ContactList} {apps : List String} (fills : input.Fills)
    (success : s.syncConversation source id contacts apps = .ok next)
    (found : next.conversations key = some after) : Changes s key input after := by
  obtain ⟨before, opened, success⟩ := bind_ok success
  have starts : s.conversations id = some before ∨ Conversation.new id = .ok before := by
    cases here : s.conversations id with
    | none =>
        rw [here] at opened
        exact .inr opened
    | some old =>
        rw [here] at opened
        cases opened
        exact .inl rfl
  have accounted : before.Accounted inputs s.outbox id := by
    rcases starts with old | new
    · exact invariant.conversations id before old
    · exact .new new
  obtain ⟨⟨between, larger⟩, added, success⟩ := bind_ok success
  obtain ⟨told, fired, success⟩ := bind_ok success
  cases success
  obtain ⟨grows, last⟩ := addContacts_ok contacts.list accounted added
  have tells : between.Extends told := by
    split at fired
    · exact fireNewConversationEvent_ok fired
    · cases fired
      exact .rfl
  have all := grows.trans (tells.trans (extends_requestApps source larger
    (apps.filter fun app => app ∉ larger.apps)))
  rcases put_cases found with ⟨same, rfl⟩ | elsewhere
  · rw [last.named] at same
    subst same
    exact .filled fills starts added
  · exact .kept (all.conversations ▸ elsewhere)

private theorem sync_changes (invariant : ServiceInvariant inputs s) {source : String}
    {contacts apps : List String} (success : s.receivedSync source id contacts apps = .ok next)
    (found : next.conversations key = some after) :
    Changes s key (.sync source id contacts apps) after := by
  obtain ⟨sender, -, success⟩ := bind_ok success
  cases sender with
  | none =>
      cases success
      exact .kept found
  | some contact =>
      obtain ⟨others, -, success⟩ := bind_ok success
      obtain ⟨list, -, success⟩ := bind_ok success
      exact syncConversation_changes invariant trivial success found

private theorem quit_changes (invariant : ServiceInvariant inputs s) {source : String}
    (success : s.receivedQuit source id = .ok next)
    (found : next.conversations key = some after) : Changes s key (.quit source id) after := by
  obtain ⟨sender, -, success⟩ := bind_ok success
  cases sender with
  | none =>
      cases success
      exact .kept found
  | some contact =>
      cases here : s.conversations id with
      | none =>
          simp only [here] at success
          cases success
          exact .kept found
      | some before =>
          simp only [here] at success
          obtain ⟨smaller, removed, success⟩ := bind_ok success
          obtain ⟨_, -, fired⟩ := bind_ok success
          obtain ⟨_, -, fired⟩ := bind_ok fired
          cases fired
          rcases put_cases found with ⟨same, rfl⟩ | elsewhere
          · have named := ((invariant.conversations id before here).removeContact removed).named
            rw [named] at same
            subst same
            exact .quit here removed
          · exact .kept elsewhere

private theorem contactDisconnected_changes (invariant : ServiceInvariant inputs s)
    {contactId : String} (success : s.receivedContactDisconnected id contactId = .ok next)
    (found : next.conversations key = some after) :
    Changes s key (.contactDisconnected id contactId) after := by
  rw [receivedContactDisconnected] at success
  cases here : s.conversations id with
  | none =>
      rw [here] at success
      cases success
      exact .kept found
  | some before =>
      rw [here] at success
      obtain ⟨member, -, success⟩ := bind_ok success
      cases member with
      | none =>
          cases success
          exact .kept found
      | some contact =>
          obtain ⟨smaller, removed, success⟩ := bind_ok success
          cases success
          rcases put_cases found with ⟨same, rfl⟩ | elsewhere
          · have named := ((invariant.conversations id before here).removeContact removed).named
            rw [named] at same
            subst same
            exact .disconnected here removed
          · exact .kept elsewhere

private theorem askContactRes_changes (invariant : ServiceInvariant inputs s)
    {source contactId : String} {status : Int}
    (success : s.receivedAskContactRes source id contactId status = .ok next)
    (found : next.conversations key = some after) :
    Changes s key (.askContactRes source id contactId status) after := by
  obtain ⟨sender, -, success⟩ := bind_ok success
  cases sender with
  | none =>
      cases success
      exact .kept found
  | some contact =>
      obtain ⟨about, known, success⟩ := bind_ok success
      cases about with
      | none =>
          cases success
          exact .kept found
      | some c =>
          cases here : s.conversations id with
          | none =>
              simp only [here] at success
              cases success
              exact .kept found
          | some before =>
              simp only [here] at success
              obtain ⟨part, decided, success⟩ := bind_ok success
              have named := (invariant.conversations id before here).named
              have told : (s.put (before.knowContact contactId source
                  (if status = 1 then .know else .dontKnow))).conversations key = some after →
                  Changes s key (.askContactRes source id contactId status) after := by
                intro found
                rcases put_cases found with ⟨same, rfl⟩ | elsewhere
                · rw [knowContact_id, named] at same
                  subst same
                  exact .answered here
                · exact .kept elsewhere
              split at success
              · rename_i isPart
                obtain ⟨⟨between, larger⟩, added, success⟩ := bind_ok success
                cases success
                have accounted := (((invariant.conversations id before here).mono
                  (List.subset_cons_self (.askContactRes source id contactId 1) inputs)
                  (List.Subset.refl _)).knowContact source contactId
                    (if status = 1 then .know else .dontKnow) fun _ => List.mem_cons_self)
                obtain ⟨grows, last⟩ := addContactToConversationP_ok accounted added
                rcases put_cases found with ⟨same, rfl⟩ | elsewhere
                · rw [last.named] at same
                  subst same
                  exact .completed here known decided isPart added
                · exact .kept (grows.conversations ▸ elsewhere)
              · obtain ⟨_, -, fired⟩ := bind_ok success
                obtain ⟨_, -, fired⟩ := bind_ok fired
                obtain ⟨_, -, fired⟩ := bind_ok fired
                cases fired
                exact told found
              · cases success
                exact told found

private theorem addContact_changes (invariant : ServiceInvariant inputs s) {c : UserInfo}
    (success : s.addContact id c = .ok next) (found : next.conversations key = some after) :
    Changes s key (.addContact id c) after := by
  rw [ConversationService.addContact] at success
  cases here : s.conversations id with
  | none =>
      rw [here] at success
      cases success
      exact .kept found
  | some before =>
      rw [here] at success
      obtain ⟨⟨between, larger⟩, added, success⟩ := bind_ok success
      cases success
      obtain ⟨grows, last⟩ :=
        addContactToConversation_ok (invariant.conversations id before here) added
      rcases put_cases found with ⟨same, rfl⟩ | elsewhere
      · rw [last.named] at same
        subst same
        exact .filled trivial (.inl here) (addContacts_single added)
      · exact .kept (grows.conversations ▸ elsewhere)

private theorem quitConversation_changes (success : s.quitConversation id = .ok next)
    (found : next.conversations key = some after) : Changes s key input after := by
  rw [ConversationService.quitConversation] at success
  cases here : s.conversations id with
  | none =>
      rw [here] at success
      cases success
      exact .kept found
  | some before =>
      rw [here] at success
      obtain ⟨_, -, fired⟩ := bind_ok success
      cases fired
      have kept : Function.update s.conversations id none key = some after := found
      rw [Function.update_apply] at kept
      split at kept
      · cases kept
      · exact .kept kept

/-- Each conversation after an input is the one before it, changed in one way. -/
theorem run_changes (invariant : ServiceInvariant inputs s) (success : input.run s = .ok next)
    (found : next.conversations key = some after) : Changes s key input after := by
  cases input with
  | sync source conversationId contacts apps => exact sync_changes invariant success found
  | quit source conversationId => exact quit_changes invariant success found
  | askContactReq source conversationId id =>
      cases success
      change (s.receivedAskContactReq source conversationId id).conversations key = _ at found
      rw [receivedAskContactReq] at found
      split at found
      · split at found
        · exact .kept found
        · exact .kept found
      · exact .kept found
  | askContactRes source conversationId id status =>
      exact askContactRes_changes invariant success found
  | contactDisconnected conversationId id =>
      exact contactDisconnected_changes invariant success found
  | createConversation id contacts => exact syncConversation_changes invariant trivial success found
  | quitConversation id => exact quitConversation_changes success found
  | addContact conversationId c => exact addContact_changes invariant success found
  | changeContacts contacts =>
      cases success
      exact .kept found

end Changes

end Firestr.Conversations
