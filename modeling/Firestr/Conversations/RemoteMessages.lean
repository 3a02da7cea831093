import Firestr.Messages.MasterPostProperties
import Firestr.Util.SerializeProperties

/-! Pings, quits and answers from outside, as their handlers read them from what
`in_thread` hands on. -/

set_option autoImplicit false

namespace Firestr.Conversations

open Firestr.Library.Outcomes Firestr.Messages Firestr.Network Firestr.Security Firestr.Util

inductive RemoteContent where
  | ping (data : Bytes)
  | quitConversation (conversationId : String)
  | askContactRes (conversationId id : String) (status : Int)
  deriving DecidableEq, Repr

/-- A message for a handler: the address of its endpoint, the sender that it
names, and what it says. -/
structure RemoteMessage where
  sid : String
  fromId : String
  content : RemoteContent
  deriving DecidableEq, Repr

def encryptionText : MessageEncryption → String
  | .symmetric => "symmetric"
  | .asymmetric => "asymmetric"
  | .plaintext => "plaintext"
  | .conversation => "conversation"

section Readers

variable {Random Public Key Double : Type}

def expectSymmetric (m : Mail Double) : Outcome Unit :=
  if m.encryption = .symmetric then .ok ()
  else .error (.thrown ("expected message with symmetric encryption but got `" ++
    encryptionText m.encryption ++ "'"))

def userServiceAddress : Bytes := ascii "user_service"
def conversationServiceAddress : Bytes := ascii "conversation_service"

/-- `PING`. -/
def pingType : Bytes := ascii "!"
def quitConversationType : Bytes := ascii "quit_conversation_msg"
def askContactResType : Bytes := ascii "ask_contact_res_msg"

abbrev quitConversationMsg : Ty := .struct (.one (ascii "conversation_id") .string)

abbrev askContactResMsg : Ty :=
  .struct (.cons (ascii "id") .string (.cons (ascii "conversation_id") .string
    (.one (ascii "status") .int)))

/-- `convert` to a `ping`. -/
def readPing (m : Mail Double) : Outcome (Bytes × RemoteContent) := do
  require (decide (m.message.metadata.fromAddress.length > 1)) "m.meta.from.size() > 1"
  match m.message.metadata.extra.lookup (ascii "from_id") with
  | none => .error (.thrown "unable to find key `from_id' in dictionary\n")
  | some v => do
    let fromId ← v.asString
    pure (fromId, .ping m.message.data)

/-- The `from_id` of `from_message`, which stays empty without one. -/
def readFromId (m : Mail Double) : Outcome Bytes :=
  match m.message.metadata.extra.lookup (ascii "from_id") with
  | none => pure []
  | some v => v.asString

variable (std : Containers Double) (doubles : Doubles Double)

/-- `from_message` of a `quit_conversation_msg`. -/
def readQuitConversation (m : Mail Double) : Outcome (Bytes × RemoteContent) := do
  let fromId ← readFromId m
  let conversationId ← deserialize std doubles quitConversationMsg m.message.data
  pure (fromId, .quitConversation (idOf conversationId))

/-- `from_message` of an `ask_contact_res_msg`. -/
def readAskContactRes (m : Mail Double) : Outcome (Bytes × RemoteContent) := do
  let fromId ← readFromId m
  let (id, conversationId, status) ← deserialize std doubles askContactResMsg m.message.data
  pure (fromId, .askContactRes (idOf conversationId) (idOf id) (Int32.toInt status))

/-- The message of a mail from the address, read as by the handler of its
service and type. There is none if it is for another. -/
def readMail (sid : String) (m : Mail Double) : Outcome (Option RemoteMessage) :=
  let reader :=
    if m.message.metadata.toAddress = [userServiceAddress] ∧
        m.message.metadata.type = pingType then some readPing
    else if m.message.metadata.toAddress = [conversationServiceAddress] ∧
        m.message.metadata.type = quitConversationType then
      some (readQuitConversation std doubles)
    else if m.message.metadata.toAddress = [conversationServiceAddress] ∧
        m.message.metadata.type = askContactResType then some (readAskContactRes std doubles)
    else none
  match reader with
  | none => pure none
  | some reader => do
    expectSymmetric m
    let (fromId, content) ← reader m
    pure (some { sid := sid, fromId := idOf fromId, content := content })

/-- The message that data from an endpoint come to. -/
def receivedMessage (ciphers : Ciphers Random Public Key) (snappy : Snappy) (own : String)
    (sl : EncryptedChannels Public) (ep : Endpoint) (data : Bytes) :
    Outcome (Option RemoteMessage) := do
  match ← inPass ciphers snappy doubles own sl ep data with
  | none => pure none
  | some m => readMail std doubles (makeAddressStr ep) m

end Readers

section Received

variable {Random Public Key Double : Type} {ciphers : Ciphers Random Public Key} {own : String}
  {std : Containers Double} {doubles : Doubles Double}

/-- The sender that a message names: its `from_id`, or nobody. -/
def Names (m : Message Double) (fromId : Bytes) : Prop :=
  m.metadata.extra.lookup (ascii "from_id") = some (.bytes fromId) ∨
    m.metadata.extra.lookup (ascii "from_id") = none ∧ fromId = []

end Received

section Letters

/-- Keys are sums of secrets. -/
def sumCiphers : Ciphers UInt8 Nat Nat := markCiphers (· + ·) Nat.toUInt8

end Letters

end Firestr.Conversations
