import Firestr.Conversations.Answers
import Firestr.Conversations.RemoteMessages
import Firestr.User.ContactRuns

/-! What a contact can do with a message from outside: a ping, a quit, or an
answer to what it was asked about a contact. The handlers act for the sender
that the message names, whatever channel it was decrypted with. -/

set_option autoImplicit false

namespace Firestr.Conversations

open Firestr.Library.Assoc Firestr.Library.Runs Firestr.Messages Firestr.Network Firestr.Security
open Firestr.User Firestr.Util

structure Services (Public : Type) where
  userService : UserService Public
  conversationService : ConversationService

namespace Services

variable {Public : Type}

/-- The handler of the message, in the service that has it. -/
def handle (s : Services Public) (m : RemoteMessage) : Outcome (Services Public) :=
  match m.content with
  | .ping data => do
    let userService ← s.userService.receivedPing m.fromId data
    pure { s with userService := userService }
  | .quitConversation conversationId => do
    let conversationService ← s.conversationService.receivedQuit m.fromId conversationId
    pure { s with conversationService := conversationService }
  | .askContactRes conversationId id status => do
    let conversationService ←
      s.conversationService.receivedAskContactRes m.fromId conversationId id status
    pure { s with conversationService := conversationService }

section Deliver

variable {Random Key Double : Type} (std : Containers Double) (doubles : Doubles Double)
  (ciphers : Ciphers Random Public Key) (snappy : Snappy) (own : String)

/-- The message in data from an endpoint, if there is one for a handler. -/
def received (s : Services Public) (ep : Endpoint) (data : Bytes) :
    Outcome (Option RemoteMessage) :=
  receivedMessage std doubles ciphers snappy own s.userService.encryptedChannels ep data

/-- Data from an endpoint, through `in_thread` to the handler. -/
def deliver (s : Services Public) (ep : Endpoint) (data : Bytes) : Outcome (Services Public) := do
  match ← s.received std doubles ciphers snappy own ep data with
  | none => pure s
  | some m => s.handle m

end Deliver

end Services

namespace Services

variable {Public : Type}

section Handlers

variable {publicValue : Nat → Public} {s next : Services Public}
  {userInputs : List (ContactInput Public)} {conversationInputs : List ServiceInput}
  {m : RemoteMessage} {contact : String}

end Handlers

end Services

section Talk

def annEndpoint : Endpoint where
  protocol := "udp"
  address := "10.0.0.1"
  port := 6060

def Services.takes (s : Services Nat) (ep : Endpoint) (data : Bytes) : Outcome (Services Nat) :=
  s.deliver inOrder loneDouble sumCiphers framed "me" ep data

/-- The services after data, as long as they come through. -/
def Services.after (s : Services Nat) (ep : Endpoint) (data : Bytes) : Services Nat :=
  valueD s (s.takes ep data)

def Services.members (s : Services Nat) (key : String) : Option (List String) :=
  (s.conversationService.conversations key).map (·.contacts.ids)

def Services.answer (s : Services Nat) (key id source : String) : Option ReqState :=
  (s.conversationService.conversations key).bind (·.answer id source)

end Talk

end Firestr.Conversations
