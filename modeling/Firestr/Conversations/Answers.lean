import Firestr.Conversations.Clique

/-! What a quit of a contact, and an answer of a contact about another, do to
the members of a conversation and to what its members have answered. -/

set_option autoImplicit false

namespace Firestr.Conversations

open Firestr.Library.Assoc Firestr.User Firestr.Util

namespace Conversation

/-- What a contact has answered about another, as far as it is recorded. -/
def answer (conversation : Conversation) (id source : String) : Option ReqState :=
  (conversation.pendingAdds.lookup id).bind fun add =>
    (add.requests.lookup source).map (·.state)

/-- What belongs to other contacts than this one is as it was. -/
structure KeepsOthers (before : Conversation) (contact : String) (after : Conversation) : Prop where
  members : ∀ other, other ≠ contact →
    (other ∈ after.contacts.ids ↔ other ∈ before.contacts.ids)
  answers : ∀ about other, other ≠ contact → after.answer about other = before.answer about other

section Effects

variable {id source contact : String} {status : Int} {before after : Conversation}

theorem KeepsOthers.rfl : before.KeepsOthers contact before := ⟨fun _ _ => .rfl, fun _ _ _ => .refl _⟩

end Effects

end Conversation

/-- A message about the conversation under the key, as the service takes it:
where it is heard it changes that conversation, and it changes no other. -/
inductive ConversationService.Takes (s : ConversationService) (heard : Prop) (key : String)
    (related : Conversation → Conversation → Prop) (next : ConversationService) : Prop where
  | ignored : ¬heard ∨ s.conversations key = none → next.conversations = s.conversations →
      Takes s heard key related next
  | taken {before after : Conversation} : heard → s.conversations key = some before →
      next.conversations = Function.update s.conversations key (some after) →
      related before after → Takes s heard key related next

/-- What belongs to other contacts than this one is as it was, in every
conversation. -/
structure ConversationService.KeepsOthers (s : ConversationService) (contact : String)
    (next : ConversationService) : Prop where
  conversations : ∀ key, (next.conversations key).isSome = (s.conversations key).isSome
  each : ∀ key before after, s.conversations key = some before →
    next.conversations key = some after → before.KeepsOthers contact after

namespace ConversationService

section Handlers

variable {inputs : List ServiceInput} {s next : ConversationService} {key id source contact : String}
  {heard : Prop} {related : Conversation → Conversation → Prop} {status : Int}

theorem KeepsOthers.same (same : next.conversations = s.conversations) :
    s.KeepsOthers contact next where
  conversations key := by rw [same]
  each key before after found found' := by
    rw [same, found] at found'
    cases found'
    exact .rfl

/-- A conversation that is still there is as it was, or the one that changed. -/
theorem Takes.each (takes : s.Takes heard key related next) {other : String}
    {before after : Conversation} (found : s.conversations other = some before)
    (found' : next.conversations other = some after) :
    after = before ∨ heard ∧ other = key ∧ related before after := by
  cases takes with
  | ignored _ same =>
      rw [same, found] at found'
      exact .inl (Option.some.inj found').symm
  | taken hears here updated relates =>
      rw [updated, Function.update_apply] at found'
      split at found'
      · rename_i same
        rw [same] at found
        cases here.symm.trans found
        cases found'
        exact .inr ⟨hears, same, relates⟩
      · rw [found] at found'
        exact .inl (Option.some.inj found').symm

end Handlers

end ConversationService

end Firestr.Conversations
