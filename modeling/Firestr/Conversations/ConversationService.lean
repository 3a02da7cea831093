import Firestr.Conversations.Conversation

/-! The conversation service: the handlers of its messages, of the disconnect
event, and of what the user does. The service runs them one at a time. -/

set_option autoImplicit false

namespace Firestr.Conversations

open Firestr.User Firestr.Util

inductive ServiceMessage where
  | syncConversation (conversationId : String) (contacts apps : Finset String)
  | quitConversation (conversationId : String)
  | askContactReq (conversationId id : String)
  | askContactRes (conversationId id : String) (status : Int)
  | requestApp (address conversationId : String)
  deriving DecidableEq

inductive ServiceEvent where
  | newConversation (conversationId : String)
  | quitConversation (conversationId : String)
  | conversationSynced (conversationId : String)
  | contactRemoved (conversationId contactId : String)
  | contactAdded (conversationId contactId : String)
  | notPartOfClique (conversationId contactId : String) (dontKnow : Finset String)
  deriving DecidableEq

/-- `conversation_service`, with the id and the contacts of its user, all
messages it has sent, each with the id it goes to, and all events it has fired. -/
structure ConversationService where
  self : String
  contacts : ContactList := {}
  conversations : String → Option Conversation := fun _ => none
  outbox : List (String × ServiceMessage) := []
  events : List ServiceEvent := []

namespace ConversationService

def send (s : ConversationService) (receiver : String) (m : ServiceMessage) : ConversationService :=
  { s with outbox := s.outbox ++ [(receiver, m)] }

/-- `send` to every contact of a list. -/
def sendAll (s : ConversationService) (contacts : List UserInfo) (m : ServiceMessage) :
    ConversationService :=
  { s with outbox := s.outbox ++ contacts.map fun c => (c.id, m) }

def sendEvent (s : ConversationService) (e : ServiceEvent) : ConversationService :=
  { s with events := s.events ++ [e] }

def put (s : ConversationService) (conversation : Conversation) : ConversationService :=
  { s with conversations := Function.update s.conversations conversation.id (some conversation) }

theorem put_apply (s : ConversationService) (conversation : Conversation) (key : String) :
    (s.put conversation).conversations key =
      if key = conversation.id then some conversation else s.conversations key := by
  simp [put, Function.update_apply]

section Events

variable (s : ConversationService) (conversationId contactId : String)

def fireNewConversationEvent : Outcome ConversationService := do
  require (!conversationId.isEmpty) "!(id.empty())"
  pure (s.sendEvent (.newConversation conversationId))

def fireQuitConversationEvent : Outcome ConversationService := do
  require (!conversationId.isEmpty) "!(id.empty())"
  pure (s.sendEvent (.quitConversation conversationId))

def fireConversationSyncedEvent : Outcome ConversationService := do
  require (!conversationId.isEmpty) "!(id.empty())"
  pure (s.sendEvent (.conversationSynced conversationId))

def fireContactRemoved : Outcome ConversationService := do
  require (!conversationId.isEmpty) "!(conversation_id.empty())"
  require (!contactId.isEmpty) "!(contact_id.empty())"
  pure (s.sendEvent (.contactRemoved conversationId contactId))

def fireContactAdded : Outcome ConversationService := do
  require (!conversationId.isEmpty) "!(conversation_id.empty())"
  require (!contactId.isEmpty) "!(contact_id.empty())"
  pure (s.sendEvent (.contactAdded conversationId contactId))

def fireNotPartOfClique (contacts : Finset String) : Outcome ConversationService := do
  require (!conversationId.isEmpty) "!(conversation_id.empty())"
  require (!contactId.isEmpty) "!(contact_id.empty())"
  require (decide (contacts ≠ ∅)) "!(contacts.empty())"
  pure (s.sendEvent (.notPartOfClique conversationId contactId contacts))

end Events

def syncExistingConversation (s : ConversationService) (conversation : Conversation) :
    ConversationService :=
  s.sendAll conversation.contacts.list
    (.syncConversation conversation.id conversation.contacts.ids.toFinset conversation.apps)

def addContactToConversationP (s : ConversationService) (c : UserInfo)
    (conversation : Conversation) : Outcome (ConversationService × Conversation) := do
  if (← conversation.contacts.byId c.id).isSome then pure (s, conversation)
  else do
    let conversation ← conversation.addContact c
    let s := s.syncExistingConversation conversation
    let s ← s.fireConversationSyncedEvent conversation.id
    let s ← s.fireContactAdded conversation.id c.id
    pure (s, conversation)

def askAbout (s : ConversationService) (id : String) (conversation : Conversation) :
    Outcome (ConversationService × Conversation) := do
  require (!id.isEmpty) "!(id.empty())"
  let conversation := conversation.askedAbout id
  pure (s.sendAll conversation.contacts.list (.askContactReq conversation.id id), conversation)

def addContactToConversation (s : ConversationService) (c : UserInfo)
    (conversation : Conversation) : Outcome (ConversationService × Conversation) := do
  if (← conversation.contacts.byId c.id).isSome then pure (s, conversation)
  else if conversation.contacts.empty && conversation.pendingAdds.isEmpty then
    s.addContactToConversationP c conversation
  else s.askAbout c.id conversation

/-- `request_apps`: of the contact the sync came from, or of all. -/
def requestApps (s : ConversationService) (source : String) (conversation : Conversation)
    (apps : List String) : ConversationService :=
  apps.foldl (fun s address =>
    if source.isEmpty then
      s.sendAll conversation.contacts.list (.requestApp address conversation.id)
    else s.send source (.requestApp address conversation.id)) s

/-- The loop of `sync_conversation` over its contacts. -/
def addContacts : List UserInfo → ConversationService → Conversation →
    Outcome (ConversationService × Conversation)
  | [], s, conversation => pure (s, conversation)
  | c :: rest, s, conversation => do
    let (s, conversation) ← s.addContactToConversation c conversation
    addContacts rest s conversation

def syncConversation (s : ConversationService) (source id : String) (contacts : ContactList)
    (apps : List String) : Outcome ConversationService := do
  let isNew := (s.conversations id).isNone
  let conversation ← (match s.conversations id with
    | none => Conversation.new id
    | some conversation => pure conversation)
  let (s, conversation) ← addContacts contacts.list s conversation
  let needApps := apps.filter fun app => app ∉ conversation.apps
  let s ← (if isNew then s.fireNewConversationEvent id else pure s)
  pure ((s.requestApps source conversation needApps).put conversation)

/-- The contacts of a list of ids that the user knows, without the user. -/
def knownContacts (s : ConversationService) : List String → Outcome (List UserInfo)
  | [] => pure []
  | id :: rest => do
    let known ← s.knownContacts rest
    if id = s.self then pure known
    else
      match ← s.contacts.byId id with
      | none => pure known
      | some c => pure (c :: known)

def receivedSync (s : ConversationService) (source conversationId : String)
    (contacts apps : List String) : Outcome ConversationService := do
  match ← s.contacts.byId source with
  | none => pure s
  | some c => do
    let others ← s.knownContacts contacts
    let contacts ← PointerList.ofUsers UserInfo.id (c :: others)
    s.syncConversation source conversationId contacts apps

def receivedQuit (s : ConversationService) (source conversationId : String) :
    Outcome ConversationService := do
  match ← s.contacts.byId source with
  | none => pure s
  | some _ =>
    match s.conversations conversationId with
    | none => pure s
    | some conversation => do
      let conversation ← conversation.removeContact source
      (s.put conversation).fireContactRemoved conversationId source

def receivedAskContactReq (s : ConversationService) (source conversationId id : String) :
    ConversationService :=
  if s.contacts.has source then
    match s.conversations conversationId with
    | none => s
    | some _ =>
      s.send source (.askContactRes conversationId id (if s.contacts.has id then 1 else 0))
  else s

def receivedAskContactRes (s : ConversationService) (source conversationId id : String)
    (status : Int) : Outcome ConversationService := do
  match ← s.contacts.byId source with
  | none => pure s
  | some _ =>
    match ← s.contacts.byId id with
    | none => pure s
    | some c =>
      match s.conversations conversationId with
      | none => pure s
      | some conversation => do
        let conversation :=
          conversation.knowContact id source (if status = 1 then .know else .dontKnow)
        let part ← conversation.partOfClique id
        match part.isPart with
        | .part => do
          let (s, conversation) ← s.addContactToConversationP c conversation
          pure (s.put conversation)
        | .notPart => (s.put conversation).fireNotPartOfClique conversation.id c.id part.contacts
        | .dontKnow => pure (s.put conversation)

/-- `conversation_widget::received_contact_disconnected`. -/
def receivedContactDisconnected (s : ConversationService) (conversationId id : String) :
    Outcome ConversationService :=
  match s.conversations conversationId with
  | none => pure s
  | some conversation => do
    match ← conversation.contacts.byId id with
    | none => pure s
    | some _ => do
      let conversation ← conversation.removeContact id
      pure (s.put conversation)

def quitConversation (s : ConversationService) (id : String) : Outcome ConversationService :=
  match s.conversations id with
  | none => pure s
  | some conversation => do
    let s := s.sendAll conversation.contacts.list (.quitConversation conversation.id)
    let s := { s with conversations := Function.update s.conversations id none }
    s.fireQuitConversationEvent id

/-- The user adds a contact to an open conversation. -/
def addContact (s : ConversationService) (conversationId : String) (c : UserInfo) :
    Outcome ConversationService :=
  match s.conversations conversationId with
  | none => pure s
  | some conversation => do
    let (s, conversation) ← s.addContactToConversation c conversation
    pure (s.put conversation)

end ConversationService

/-- What the service is given: messages with the contact they come from, the
disconnect event, and what the user does. -/
inductive ServiceInput where
  | sync (source conversationId : String) (contacts apps : List String)
  | quit (source conversationId : String)
  | askContactReq (source conversationId id : String)
  | askContactRes (source conversationId id : String) (status : Int)
  | contactDisconnected (conversationId id : String)
  | createConversation (id : String) (contacts : ContactList)
  | quitConversation (id : String)
  | addContact (conversationId : String) (c : UserInfo)
  | changeContacts (contacts : ContactList)

def ServiceInput.run (s : ConversationService) : ServiceInput → Outcome ConversationService
  | .sync source conversationId contacts apps => s.receivedSync source conversationId contacts apps
  | .quit source conversationId => s.receivedQuit source conversationId
  | .askContactReq source conversationId id =>
    .ok (s.receivedAskContactReq source conversationId id)
  | .askContactRes source conversationId id status =>
    s.receivedAskContactRes source conversationId id status
  | .contactDisconnected conversationId id => s.receivedContactDisconnected conversationId id
  | .createConversation id contacts => s.syncConversation "" id contacts []
  | .quitConversation id => s.quitConversation id
  | .addContact conversationId c => s.addContact conversationId c
  | .changeContacts contacts => .ok { s with contacts := contacts }

end Firestr.Conversations
