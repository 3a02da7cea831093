import Mathlib.Data.String.Basic
import Firestr.Library.OrderedMap
import Firestr.Security.EncryptedChannels
import Firestr.User.ContactList
import Firestr.Util.Bytes

/-! The user service: which contacts are connected, from the connect requests
and pings it receives and from the ticks of its ping thread. -/

set_option autoImplicit false

namespace Firestr.User

open Firestr.Library.OrderedMap Firestr.Security Firestr.Util

def pingTicks : Nat := 12
def pingThresh : Nat := 5 * pingTicks

def connectedByte : UInt8 := 'c'.toNat.toUInt8
def idleByte : UInt8 := 'i'.toNat.toUInt8
def disconnectedByte : UInt8 := 'd'.toNat.toUInt8

/-- `LOCAL`, the address that is skipped. -/
def localAddress : String := "local"

def maxAddresses : Nat := 3
def protocolVersion : Int := 0
def clientVersion : Int := 11

/-- What the shared `user_info` of a contact says besides its id. -/
structure ContactInfo where
  name : String
  key : String
  addresses : List String
  deriving DecidableEq, Repr

namespace ContactInfo

def address (s : ContactInfo) : String := s.addresses.head?.getD ""

def addKnownAddress (s : ContactInfo) (v : String) : ContactInfo :=
  let addresses := v :: s.addresses.erase v
  { s with addresses := if addresses.length > maxAddresses then addresses.dropLast else addresses }

end ContactInfo

inductive ContactState where
  | offline
  | connecting
  | connected
  deriving DecidableEq, Repr

/-- `contact_data`, with the fields that `_contacts[id]` gives a new entry. -/
structure ContactData where
  state : ContactState := .offline
  contact : Option UserInfo := none
  lastPing : Nat := 0
  clientVersion : Int := 0
  protocolVersion : Int := 0
  idle : Bool := false
  deriving DecidableEq, Repr

def available (ticks : Nat) : Bool := ticks ≤ pingThresh

/-- What `received_ping` finds out under `_ping_mutex`. -/
structure Pinged where
  data : ContactData
  curState : Bool
  fireEvent : Bool
  fireIdleEvent : Bool

def ContactData.pinged (p : ContactData) (state : UInt8) : Outcome Pinged := do
  let prevState := available p.lastPing
  let prevIdle := p.idle
  let p ← (if state = idleByte then pure { p with lastPing := 0, idle := true }
    else if state = connectedByte then pure { p with lastPing := 0, idle := false }
    else if state = disconnectedByte then do
      let p := { p with lastPing := pingThresh + pingThresh }
      check (!available p.lastPing) "!(available(ticks))"
      pure p
    else pure { p with lastPing := 0 })
  let curState := available p.lastPing
  pure {
    data := p
    curState := curState
    fireEvent := curState != prevState || p.state == .connecting
    fireIdleEvent := prevIdle != p.idle }

/-- The state byte of a ping: a message without exactly one byte disconnects. -/
def pingState (data : Bytes) : UInt8 :=
  match data with
  | [state] => state
  | _ => disconnectedByte

/-- `ping_request` as it is received. -/
structure ConnectRequest (Public : Type) where
  fromId : String
  fromIp : String
  fromPort : Nat
  sendBack : Int
  publicSecret : Public
  pv : Int
  cv : Int

inductive UserMessage (Public : Type) where
  | ping (address fromId : String) (state : UInt8)
  | pingRequest (address fromId : String) (sendBack : Bool) (publicSecret : Public) (pv cv : Int)
  deriving DecidableEq, Repr

inductive UserEvent where
  | contactConnected (id : String)
  | contactDisconnected (id name : String)
  | contactActivityChanged (id : String)
  deriving DecidableEq, Repr

def makeUdpAddress (host : String) (port : Nat) : String :=
  "udp://" ++ host ++ ":" ++ toString port

/-- `user_service`, with the contacts of its user, the counter of its ping
thread, all messages it has sent and all events it has fired. -/
structure UserService (Public : Type) where
  self : String
  contacts : ContactList := {}
  infos : String → ContactInfo
  contactData : List (String × ContactData) := []
  encryptedChannels : EncryptedChannels Public := {}
  sendTicks : Nat := 0
  outbox : List (UserMessage Public) := []
  events : List UserEvent := []

namespace UserService

variable {Public : Type}

section Entries

variable (s : UserService Public)

def byId (id : String) : Outcome (Option UserInfo) := s.contacts.byId id

def put (id : String) (cd : ContactData) : UserService Public :=
  { s with contactData := place s.contactData id cd }

/-- `_contacts[id]`, which makes a missing entry. -/
def entry (id : String) : ContactData := (s.contactData.lookup id).getD {}

def pushOutbox (m : UserMessage Public) : UserService Public := { s with outbox := s.outbox ++ [m] }

def sendEvent (e : UserEvent) : UserService Public := { s with events := s.events ++ [e] }

def contactAvailable (id : String) : Bool :=
  match s.contactData.lookup id with
  | none => false
  | some c => c.contact.isSome && c.state == .connected

def isContactConnecting (id : String) : Bool :=
  match s.contactData.lookup id with
  | none => false
  | some c => c.contact.isSome && c.state == .connecting

def addContactData (u : UserInfo) : UserService Public :=
  s.put u.id { state := .offline, contact := some u, lastPing := pingThresh }

end Entries

/-- The constructor, for a user with these contacts. -/
def new (self : String) (contacts : ContactList) (infos : String → ContactInfo) :
    UserService Public :=
  contacts.list.foldl addContactData { self := self, contacts := contacts, infos := infos }

section Events

variable (s : UserService Public) (id : String)

def contactConnecting : Outcome (Bool × UserService Public) := do
  match ← s.byId id with
  | none => pure (false, s)
  | some c => do
    let cd := { s.entry c.id with
      idle := true
      contact := some c
      lastPing := 0
      state := .connecting }
    ensure (cd.state == .connecting) "cd.state == contact_data::CONNECTING"
    pure (true, s.put c.id cd)

def contactConnected : Outcome (Bool × UserService Public) := do
  match ← s.byId id with
  | none => pure (false, s)
  | some c => do
    let cd := s.entry c.id
    if cd.state = .connected then pure (false, s.put c.id cd)
    else do
      check (cd.state == .connecting) "cd.state == contact_data::CONNECTING"
      let cd := { cd with contact := some c, idle := true, lastPing := 0, state := .connected }
      ensure (cd.state == .connected) "cd.state == contact_data::CONNECTED"
      pure (true, s.put c.id cd)

def fireContactConnectedEvent : Outcome (UserService Public) := do
  let (stateChanged, s) ← s.contactConnected id
  if stateChanged then pure (s.sendEvent (.contactConnected id)) else pure s

def fireContactDisconnectedEvent : Outcome (UserService Public) := do
  match ← s.byId id with
  | none => pure s
  | some _ => do
    let cd := s.entry id
    if cd.state = .offline then pure (s.put id cd)
    else
      match cd.contact with
      | none => .error (.raised .check "cd.contact")
      | some contact => do
        let prevState := cd.state
        let cd := { cd with state := .offline, lastPing := pingThresh }
        let s := s.put id cd
        let info := s.infos contact.id
        let s ← (if prevState = .connected then
            let channels := info.addresses.foldl EncryptedChannels.removeChannel s.encryptedChannels
            pure (({ s with encryptedChannels := channels }).sendEvent
              (.contactDisconnected id info.name))
          else do
            check (prevState == .connecting) "prev_state == contact_data::CONNECTING"
            pure s)
        ensure (cd.state == .offline) "cd.state == contact_data::OFFLINE"
        pure s

end Events

def receivedPing (s : UserService Public) (fromId : String) (data : Bytes) :
    Outcome (UserService Public) := do
  match s.contactData.lookup fromId with
  | none => pure s
  | some p =>
    if p.contact.isNone then pure s
    else do
      let r ← p.pinged (pingState data)
      let s := s.put fromId r.data
      let s ← (if r.fireEvent then
          if r.curState then s.fireContactConnectedEvent fromId
          else s.fireContactDisconnectedEvent fromId
        else pure s)
      pure (if r.fireIdleEvent then s.sendEvent (.contactActivityChanged fromId) else s)

def sendPingTo (st : UInt8) (force : Bool) (s : UserService Public) (id : String) :
    Outcome (UserService Public) :=
  match s.contactData.lookup id with
  | none => pure s
  | some p =>
    match p.contact with
    | none => pure s
    | some c => do
      if p.state = .offline && !force then pure s
      else do
        let sc ← s.encryptedChannels.getChannel (s.infos c.id).address
        check sc.sharedSecret.ready "sc.shared_secret.ready()"
        match ← s.byId c.id with
        | none => pure (s.put id { p with contact := none })
        | some _ => pure (s.pushOutbox (.ping (s.infos c.id).address s.self st))

def sendPing (s : UserService Public) (st : UInt8) : Outcome (UserService Public) := do
  require (st == connectedByte || st == disconnectedByte || st == idleByte)
    "s == CONNECTED || s == DISCONNECTED || s == IDLE"
  (s.contactData.map (·.1)).foldlM (sendPingTo st false) s

/-- The ping thread's state byte, from `user_is_idle`. -/
def userState (idle : Bool) : UInt8 := if idle then idleByte else connectedByte

def updateContactVersion (s : UserService Public) (id : String)
    (protocolVersion clientVersion : Int) : Outcome (UserService Public) :=
  if protocolVersion < 0 || clientVersion < 0 then pure s
  else do
    match ← s.byId id with
    | none => pure s
    | some c =>
      pure (s.put c.id { s.entry c.id with
        protocolVersion := protocolVersion
        clientVersion := clientVersion })

def updateContactAddress (s : UserService Public) (id ip : String) (port : Nat) :
    Outcome (UserService Public) := do
  match ← s.byId id with
  | none => pure s
  | some c =>
    let a := makeUdpAddress ip port
    let info := s.infos c.id
    let s := { s with encryptedChannels := s.encryptedChannels.createChannel a info.key }
    if info.address = a then pure s
    else pure { s with infos := Function.update s.infos c.id (info.addKnownAddress a) }

section Requests

/-! A secret's public value is a matter of the Diffie-Hellman group: here of
the number of the secret. -/

variable (publicValue : Nat → Public)

/-- `send_ping_request` to one address. -/
def sendPingRequestTo (key : String) (sendBack : Bool) (s : UserService Public)
    (address : String) : Outcome (UserService Public) := do
  let s := { s with encryptedChannels := s.encryptedChannels.createChannel address key }
  let channel ← s.encryptedChannels.getChannel address
  pure (s.pushOutbox (.pingRequest address s.self sendBack
    (publicValue channel.sharedSecret.secret) protocolVersion clientVersion))

/-- `send_ping_request` to all addresses of a contact. -/
def sendPingRequest (s : UserService Public) (c : UserInfo) (sendBack : Bool) :
    Outcome (UserService Public) := do
  require (!s.isContactConnecting c.id) "!(is_contact_connecting(c->id()))"
  require (!s.contactAvailable c.id) "!(contact_available(c->id()))"
  let info := s.infos c.id
  (info.addresses.filter (· ≠ localAddress)).foldlM
    (sendPingRequestTo publicValue info.key sendBack) s

def setupSecurityConversation (s : UserService Public) (address key : String)
    (publicVal : Public) : Outcome (UserService Public) := do
  require (!address.isEmpty) "!(address.empty())"
  pure { s with
    encryptedChannels := s.encryptedChannels.createReadyChannel address key publicVal }

def receivedConnectRequest (s : UserService Public) (r : ConnectRequest Public) (idle : Bool) :
    Outcome (UserService Public) := do
  match ← s.byId r.fromId with
  | none => pure s
  | some c => do
    let s ← s.updateContactVersion c.id r.pv r.cv
    if s.contactAvailable c.id then pure s
    else if s.isContactConnecting c.id then pure s
    else do
      let s ← s.updateContactAddress c.id r.fromIp r.fromPort
      let s ← (if r.sendBack ≠ 0 then s.sendPingRequest publicValue c false else pure s)
      let (_, s) ← s.contactConnecting c.id
      let s ← s.setupSecurityConversation (makeUdpAddress r.fromIp r.fromPort)
        (s.infos c.id).key r.publicSecret
      sendPingTo (userState idle) true s c.id

end Requests

/-- The ping thread's loop body for one entry of `_contacts`. -/
def tickContact (s : UserService Public) (id : String) : Outcome (UserService Public) :=
  match s.contactData.lookup id with
  | none => pure s
  | some p => do
    if p.state = .offline || p.contact.isNone then pure s
    else do
      let prevState := available p.lastPing
      let p := { p with lastPing := p.lastPing + 1 }
      let curState := available p.lastPing
      let s := s.put id p
      if curState ≠ prevState then do
        check (!curState) "!cur_state"
        check p.contact.isSome "p.second.contact"
        s.fireContactDisconnectedEvent id
      else pure s

/-- One round of `ping_thread`. -/
def pingThreadTick (s : UserService Public) (idle : Bool) : Outcome (UserService Public) := do
  let s ← (if s.sendTicks > pingTicks then do
      let s ← s.sendPing (userState idle)
      pure { s with sendTicks := 0 }
    else pure { s with sendTicks := s.sendTicks + 1 })
  (s.contactData.map (·.1)).foldlM tickContact s

end UserService

/-- What changes the contact states: a connect request or a ping that arrives,
and a tick of the ping thread. -/
inductive ContactInput (Public : Type) where
  | connectRequest (r : ConnectRequest Public) (idle : Bool)
  | ping (fromId : String) (data : Bytes)
  | tick (idle : Bool)

def ContactInput.run {Public : Type} (publicValue : Nat → Public) (s : UserService Public) :
    ContactInput Public → Outcome (UserService Public)
  | .connectRequest r idle => s.receivedConnectRequest publicValue r idle
  | .ping fromId data => s.receivedPing fromId data
  | .tick idle => s.pingThreadTick idle

end Firestr.User
