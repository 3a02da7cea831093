import Firestr.User.ContactRuns

/-! Two users who connect: each sends the other connect requests, and makes the
key of its channel from the public value of the first request it takes. -/

set_option autoImplicit false

namespace Firestr.User

open Firestr.Security Firestr.Util

/-- Diffie-Hellman, as a function of two secrets. -/
structure DiffieHellman (Secret Public Key : Type) where
  publicValue : Secret → Public
  symmetricKey : Secret → Public → Key
  comm : ∀ a b, symmetricKey a (publicValue b) = symmetricKey b (publicValue a)

inductive Side where
  | left
  | right
  deriving DecidableEq, Repr

def Side.other : Side → Side
  | .left => .right
  | .right => .left

/-- The exchange with the secrets that the channels of each side draw. -/
structure Exchange (Secret Public Key : Type) extends DiffieHellman Secret Public Key where
  draw : Side → Nat → Secret

/-- Where a connect request went and where it came from. -/
structure Route where
  sentTo : String
  cameFrom : String
  deriving DecidableEq, Repr

/-- The two users. What each has sent is in its outbox. The route of the request
that each has taken is for the statements only. -/
structure Pair (Public : Type) where
  user : Side → UserService Public
  taken : Side → Option Route := fun _ => none

/-- What happens to the two. A message may come late, often or never, and from
any address. -/
inductive Move (Public : Type) where
  | request (side : Side) (sendBack : Bool)
  | requestAt (side : Side) (address : String) (sendBack : Bool)
  | deliver (side : Side) (m : UserMessage Public) (ip : String) (port : Nat) (idle : Bool)

variable {Secret Public Key : Type}

namespace Pair

section State

variable (p : Pair Public) (side : Side)

/-- The id under which a side knows the other. -/
def peer : String := (p.user side.other).self

def info : ContactInfo := (p.user side).infos (p.peer side)

def withUser (s : UserService Public) : Pair Public :=
  { p with user := Function.update p.user side s }

/-- A request of the other side is taken: it is a contact, and offline. -/
def takes : Bool :=
  match (p.user side).byId (p.peer side) with
  | .ok (some c) => !(p.user side).contactAvailable c.id && !(p.user side).isContactConnecting c.id
  | _ => false

/-- The routes of the requests taken, after a move. -/
def recorded : Move Public → Side → Option Route
  | .deliver side (.pingRequest address _ _ _ _ _) ip port _ =>
    if p.takes side then Function.update p.taken side (some ⟨address, makeUdpAddress ip port⟩)
    else p.taken
  | _ => p.taken

/-- The channel under the address that a side uses for the other. -/
def currentChannel : Option (Channel Public) :=
  (p.user side).encryptedChannels.channels (p.info side).address

end State

/-- The two as they start. -/
structure Starts (p : Pair Public) : Prop where
  user : ∀ side, (p.user side).Starts
  taken : ∀ side, p.taken side = none

/-- A request that is taken second travels back the way of the first: it comes
from the address that the first was sent to, and was sent to the address that
the first came from. -/
def Mirrors (p : Pair Public) : Move Public → Prop
  | .deliver side (.pingRequest address _ _ _ _ _) ip port _ => p.takes side = true →
      ∀ route, p.taken side.other = some route →
        route.sentTo = makeUdpAddress ip port ∧ route.cameFrom = address
  | _ => True

/-- The requests that the two have taken have gone between the same addresses. -/
def Mirrored (p : Pair Public) : Prop :=
  ∀ side first second, p.taken side = some first → p.taken side.other = some second →
    first.sentTo = second.cameFrom

end Pair

/-- The request as the receiver reads it. -/
def connectRequest (fromId : String) (sendBack : Bool) (publicSecret : Public) (pv cv : Int)
    (ip : String) (port : Nat) : ConnectRequest Public where
  fromId := fromId
  fromIp := ip
  fromPort := port
  sendBack := if sendBack then 1 else 0
  publicSecret := publicSecret
  pv := pv
  cv := cv

namespace Exchange

variable (e : Exchange Secret Public Key)

/-- The public value of a secret that a side has drawn. -/
def drawn (side : Side) (n : Nat) : Public := e.publicValue (e.draw side n)

/-- The symmetric key of a channel that is ready. -/
def keyOf (side : Side) (c : Channel Public) : Option Key :=
  c.sharedSecret.otherPubValue.map (e.symmetricKey (e.draw side c.sharedSecret.secret))

def run (p : Pair Public) : Move Public → Outcome (Pair Public)
  | .request side sendBack => do
    match ← (p.user side).byId (p.peer side) with
    | none => pure p
    | some c => do
      let s ← (p.user side).sendPingRequest (e.drawn side) c sendBack
      pure (p.withUser side s)
  | .requestAt side address sendBack => do
    match ← (p.user side).byId (p.peer side) with
    | none => pure p
    | some c => do
      let s ← (p.user side).sendPingRequestTo (e.drawn side) ((p.user side).infos c.id).key
        sendBack address
      pure (p.withUser side s)
  | .deliver side (.pingRequest address fromId sendBack publicSecret pv cv) ip port idle => do
    let s ← (p.user side).receivedConnectRequest (e.drawn side)
      (connectRequest fromId sendBack publicSecret pv cv ip port) idle
    pure { p.withUser side s with
      taken := p.recorded (.deliver side
        (.pingRequest address fromId sendBack publicSecret pv cv) ip port idle) }
  | .deliver side (.ping _ fromId state) _ _ _ => do
    let s ← (p.user side).receivedPing fromId [state]
    pure (p.withUser side s)

/-- A message is delivered only if the other side has sent it. -/
def Step (p : Pair Public) (move : Move Public) (q : Pair Public) : Prop :=
  (∀ side m ip port idle, move = .deliver side m ip port idle →
    m ∈ (p.user side.other).outbox) ∧ e.run p move = .ok q

/-- The key of one side is the key of the other, once both are ready. -/
def Agrees (p : Pair Public) : Prop :=
  ∀ side c d key other, p.currentChannel side = some c → p.currentChannel side.other = some d →
    e.keyOf side c = some key → e.keyOf side.other d = some other → key = other

end Exchange

end Firestr.User
