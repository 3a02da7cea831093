import Firestr.Util.Dbc

/-! The channels with peers, by address: the key of the peer, and the secret
drawn for it. -/

set_option autoImplicit false

namespace Firestr.Security

open Firestr.Util

/-- `dh_secret`: the number of the drawn secret, and once there is a symmetric
key, the public value it was made from. -/
structure DhSecret (Public : Type) where
  secret : Nat
  otherPubValue : Option Public := none
  deriving DecidableEq, Repr

variable {Public : Type}

def DhSecret.createSymmetricKey (s : DhSecret Public) (pv : Public) : DhSecret Public :=
  { s with otherPubValue := some pv }

def DhSecret.ready (s : DhSecret Public) : Bool := s.otherPubValue.isSome

/-- `channel`, where the key is there once it is valid. -/
structure Channel (Public : Type) where
  sharedSecret : DhSecret Public
  key : Option String := none
  deriving DecidableEq, Repr

/-- `encrypted_channels`, with how many secrets it has drawn. -/
structure EncryptedChannels (Public : Type) where
  channels : String → Option (Channel Public) := fun _ => none
  drawn : Nat := 0

namespace EncryptedChannels

def put (s : EncryptedChannels Public) (i : String) (c : Channel Public) :
    EncryptedChannels Public :=
  { s with channels := Function.update s.channels i (some c) }

/-- `dh_secret{}` -/
def drawSecret (s : EncryptedChannels Public) : DhSecret Public × EncryptedChannels Public :=
  ({ secret := s.drawn }, { s with drawn := s.drawn + 1 })

/-- `_s[i]` -/
def entry (s : EncryptedChannels Public) (i : String) :
    Channel Public × EncryptedChannels Public :=
  match s.channels i with
  | some c => (c, s)
  | none =>
    let (secret, s) := s.drawSecret
    ({ sharedSecret := secret }, s.put i { sharedSecret := secret })

/-- `create_channel` without a public value. -/
def createChannel (s : EncryptedChannels Public) (i key : String) : EncryptedChannels Public :=
  let (c, s) := s.entry i
  if c.key = some key then s
  else
    let (secret, s) := s.drawSecret
    s.put i { sharedSecret := secret, key := some key }

/-- `create_channel` with a public value. -/
def createReadyChannel (s : EncryptedChannels Public) (i key : String) (publicVal : Public) :
    EncryptedChannels Public :=
  let (c, s) := s.entry i
  s.put i { sharedSecret := c.sharedSecret.createSymmetricKey publicVal, key := some key }

def getChannel (s : EncryptedChannels Public) (i : String) : Outcome (Channel Public) :=
  match s.channels i with
  | some c => pure c
  | none => .error (.raised .require "r != _s.end()")

def removeChannel (s : EncryptedChannels Public) (i : String) : EncryptedChannels Public :=
  { s with channels := Function.update s.channels i none }

end EncryptedChannels

end Firestr.Security
