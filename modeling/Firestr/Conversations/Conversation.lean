import Firestr.Library.Assoc
import Firestr.User.ContactList

/-! One conversation: its contacts, and the contacts it has asked the others
about before it adds them. -/

set_option autoImplicit false

namespace Firestr.Conversations

open Firestr.Library.Assoc Firestr.User Firestr.Util

inductive ReqState where
  | sent
  | dontKnow
  | know
  deriving DecidableEq, Repr

structure KnowRequest where
  sentTo : String
  state : ReqState
  deriving DecidableEq, Repr

structure PendingContactAdd where
  contact : String
  requests : List (String × KnowRequest)
  deriving DecidableEq, Repr

inductive IsPart where
  | notPart
  | part
  | dontKnow
  deriving DecidableEq, Repr

structure CliqueStatus where
  isPart : IsPart
  contacts : Finset String := ∅

/-- `conversation`, with the addresses of its apps. -/
structure Conversation where
  id : String
  contacts : ContactList := {}
  pendingAdds : List (String × PendingContactAdd) := []
  removed : Finset String := ∅
  apps : Finset String := ∅

namespace Conversation

def new (id : String) : Outcome Conversation := do
  contract .invariant (!id.isEmpty) "!(_id.empty())"
  pure { id := id }

/-- The requests to all contacts. -/
def sentRequests (contacts : List UserInfo) : List (String × KnowRequest) :=
  contacts.foldl (fun requests c => assign requests c.id { sentTo := c.id, state := .sent }) []

def askedAbout (s : Conversation) (id : String) : Conversation :=
  { s with
    pendingAdds := assign s.pendingAdds id
      { contact := id, requests := sentRequests s.contacts.list } }

def knowContact (s : Conversation) (id source : String) (state : ReqState) : Conversation :=
  match s.pendingAdds.lookup id with
  | none => s
  | some add =>
    match add.requests.lookup source with
    | none => s
    | some request =>
      { s with
        pendingAdds := assign s.pendingAdds id
          { add with requests := assign add.requests source { request with state := state } } }

def partOfClique (s : Conversation) (id : String) : Outcome CliqueStatus :=
  match s.pendingAdds.lookup id with
  | none => pure { isPart := .dontKnow }
  | some add => do
    let requests := add.requests
    if requests.length ≠ (← s.contacts.size) then pure { isPart := .dontKnow }
    else
      let howManySent := requests.countP fun p => p.2.state == .sent
      if howManySent > 0 then pure { isPart := .dontKnow }
      else
        let howManyKnow := requests.countP fun p => p.2.state == .know
        if howManyKnow = requests.length then pure { isPart := .part }
        else
          pure {
            isPart := .notPart
            contacts := ((requests.filter fun p => p.2.state == .dontKnow).map (·.2.sentTo)).toFinset }

def removeContact (s : Conversation) (id : String) : Outcome Conversation := do
  let s ← (match ← s.contacts.byId id with
    | some c => do
      let (_, contacts) ← s.contacts.remove c
      pure { s with contacts := contacts, removed := insert id s.removed }
    | none => pure s : Outcome Conversation)
  pure { s with pendingAdds := unassign s.pendingAdds id }

def addContact (s : Conversation) (c : UserInfo) : Outcome Conversation := do
  let (_, contacts) ← s.contacts.add c
  pure { s with contacts := contacts, removed := s.removed.erase c.id }

end Conversation

end Firestr.Conversations
