import Firestr.Messages.Message
import Firestr.Network.UdpWire
import Firestr.Security.Encryption

/-! The master post office, between the offices of a node and the wire. Its `out_thread`
encodes, compresses and encrypts a message, and its `in_thread` undoes that and marks the
message with where it came from. -/

set_option autoImplicit false

namespace Firestr.Messages

open Firestr.Library.Assoc Firestr.Network Firestr.Security Firestr.Util

/-- `metadata::encryption_type`. -/
inductive MessageEncryption where
  | conversation
  | asymmetric
  | symmetric
  | plaintext
  deriving DecidableEq, Repr

/-- `metadata::source_type`. -/
inductive SourceType where
  | here
  | remote
  deriving DecidableEq, Repr

/-- A message with the metadata that are not written. -/
structure Mail (Double : Type) where
  message : Message Double
  source : SourceType := .here
  encryption : MessageEncryption := .conversation
  robust : Bool := true

/-- What the threads use of Snappy. -/
structure Snappy where
  compress : Bytes → Bytes
  uncompress : Bytes → Option Bytes

/-- `uncompress`, which is empty when it fails. -/
def uncompress (snappy : Snappy) (i : Bytes) : Bytes := (snappy.uncompress i).getD []

/-- A `std::string` of any bytes as the id of a channel. -/
def idOf (s : Bytes) : String := String.ofList (s.map fun byte => Char.ofNat byte.toNat)

def makeAddressStr (e : Endpoint) : String :=
  e.protocol ++ "://" ++ e.address ++ ":" ++ toString e.port.toNat

def toMessageEncryptionType : EncryptionType → Outcome MessageEncryption
  | .plaintext => pure .plaintext
  | .symmetric => pure .symmetric
  | .asymmetric => pure .asymmetric
  | .unknown => .error (.raised .check "false && \"missed case\"")

variable {Random Public Key Double : Type} (ciphers : Ciphers Random Public Key)
  (snappy : Snappy) (doubles : Doubles Double)

/-- The endpoint in the extra metadata, in place of what the sender wrote there. -/
def stamped (ep : Endpoint) (extra : List (Bytes × Value Double)) : List (Bytes × Value Double) :=
  assign (assign (assign extra (ascii "from_protocol") (.bytes (ascii ep.protocol)))
    (ascii "from_ip") (.bytes (ascii ep.address)))
    (ascii "from_port") (.int (Int64.ofNat ep.port.toNat))

/-- `encrypt_message`. -/
def encryptMessage (data : Bytes) (m : Mail Double) (conversationId : String)
    (sl : EncryptedChannels Public) (random : Random) : Outcome (Bytes × Random) :=
  match m.encryption with
  | .plaintext => pure (EncryptedChannels.encryptPlaintext data, random)
  | .symmetric => do
    let data ← sl.encryptSymmetric ciphers conversationId data
    pure (data, random)
  | .asymmetric => sl.encryptAsymmetric ciphers conversationId data random
  | .conversation => sl.encrypt ciphers conversationId data random

/-- What goes to `connection_manager::send`. -/
structure Outgoing where
  outsideQueueAddress : Bytes
  data : Bytes
  robust : Bool
  deriving DecidableEq, Repr

/-- A pass of `out_thread` with a message of the queue. -/
def outPass (sl : EncryptedChannels Public) (random : Random) (m : Mail Double) :
    Outcome (Outgoing × Random) := do
  require (decide (m.message.metadata.fromAddress.length ≥ 1)) "m.meta.from.size() >= 1"
  require (decide (m.message.metadata.toAddress.length ≥ 1)) "m.meta.to.size() >= 1"
  match m.message.metadata.toAddress with
  | [] => .error .dangling
  | outsideQueueAddress :: _ => do
    let data := snappy.compress (m.message.encode doubles)
    let (data, random) ← encryptMessage ciphers data m (idOf outsideQueueAddress) sl random
    pure ({ outsideQueueAddress := outsideQueueAddress, data := data, robust := m.robust }, random)

/-- A pass of `in_thread` with data from an endpoint, up to the message that it sends on. There is
none when the data are skipped. -/
def inPass (own : String) (sl : EncryptedChannels Public) (ep : Endpoint) (data : Bytes) :
    Outcome (Option (Mail Double)) := do
  let (data, et) ← sl.decrypt ciphers doubles own (makeAddressStr ep) data
  if data.isEmpty then pure none
  else
    let data := uncompress snappy data
    if data.isEmpty then pure none
    else do
      let m ← Message.decode doubles data
      match m.metadata.toAddress, et with
      | [], _ => pure none
      | _ :: _, none => .error .dangling
      | _ :: rest, some et => do
        let encryption ← toMessageEncryptionType et
        pure (some {
          message := { m with metadata := { m.metadata with
            toAddress := rest
            extra := stamped ep m.metadata.extra } }
          source := .remote
          encryption := encryption })

end Firestr.Messages
