import Firestr.User.ContactStates

/-! The threads of the user service: the service thread handles one message
after the other, the ping thread sends pings and lets contacts expire, the
reconnect thread sends connect requests, and the user confirms a contact. Each
step is a part of the code that holds one lock. -/

set_option autoImplicit false

namespace Firestr.User

open Firestr.Security Firestr.Util

variable {Public : Type}

/-- Where a thread is in `send_ping_request` to the addresses of a contact. -/
inductive RequestStage where
  | connecting
  | available
  | sending (addresses : List String)
  deriving DecidableEq, Repr

/-- Where the service thread is: between two parts of `received_connect_request`,
or before the events of `received_ping`. -/
inductive ServiceStage (Public : Type) where
  | idle
  | testAvailable (r : ConnectRequest Public) (c : UserInfo)
  | testConnecting (r : ConnectRequest Public) (c : UserInfo)
  | move (r : ConnectRequest Public) (c : UserInfo)
  | ask (r : ConnectRequest Public) (c : UserInfo) (stage : RequestStage)
  | join (r : ConnectRequest Public) (c : UserInfo)
  | setup (r : ConnectRequest Public) (c : UserInfo)
  | greet (c : UserInfo)
  | fire (id : String) (event : Option Bool) (idleEvent : Bool)

/-- Where the reconnect thread is in `send_ping_requests`, with the contacts that
are left. -/
inductive ReconnectStage where
  | idle
  | next (rest : List UserInfo)
  | testAvailable (c : UserInfo) (rest : List UserInfo)
  | ask (c : UserInfo) (stage : RequestStage) (rest : List UserInfo)
  deriving DecidableEq, Repr

/-- Where the user's thread is in `confirm_contact`. -/
inductive ConfirmStage where
  | idle
  | addData (c : UserInfo)
  | checkConnecting (c : UserInfo)
  | checkAvailable (c : UserInfo)
  | ask (c : UserInfo) (stage : RequestStage)
  deriving DecidableEq, Repr

/-- The user service with its threads. The reconnect thread and the user's hold
`_mutex` while they are not idle. -/
structure Threads (Public : Type) where
  user : UserService Public
  service : ServiceStage Public := .idle
  reconnect : ReconnectStage := .idle
  confirm : ConfirmStage := .idle

/-- Which thread goes on, and what arrives. The ping thread may turn to any
contact. -/
inductive Action (Public : Type) where
  | request (r : ConnectRequest Public)
  | ping (fromId : String) (data : Bytes)
  | service (idle : Bool)
  | sendPing (idle : Bool) (id : String)
  | tick (id : String)
  | reconnect
  | confirm (c : UserInfo) (info : ContactInfo)
  | confirmNext

section Stages

variable (publicValue : Nat → Public)

/-- One part of `send_ping_request`. After the last address there is no stage left. -/
def requestStep (c : UserInfo) (sendBack : Bool) (s : UserService Public) :
    RequestStage → Outcome (Option RequestStage × UserService Public)
  | .connecting => do
    require (!s.isContactConnecting c.id) "!(is_contact_connecting(c->id()))"
    pure (some .available, s)
  | .available => do
    require (!s.contactAvailable c.id) "!(contact_available(c->id()))"
    pure (some (.sending ((s.infos c.id).addresses.filter (· ≠ localAddress))), s)
  | .sending [] => pure (none, s)
  | .sending (address :: rest) => do
    let s ← s.sendPingRequestTo publicValue (s.infos c.id).key sendBack address
    pure (some (.sending rest), s)

/-- One part of a handler. `update_contact_address` waits for `_mutex`. -/
def serviceStep (idle free : Bool) (s : UserService Public) :
    ServiceStage Public → Outcome (ServiceStage Public × UserService Public)
  | .idle => pure (.idle, s)
  | .testAvailable r c => pure (if s.contactAvailable c.id then .idle else .testConnecting r c, s)
  | .testConnecting r c => pure (if s.isContactConnecting c.id then .idle else .move r c, s)
  | .move r c =>
    if free then do
      let s ← s.updateContactAddress c.id r.fromIp r.fromPort
      pure (if r.sendBack ≠ 0 then .ask r c .connecting else .join r c, s)
    else pure (.move r c, s)
  | .ask r c stage => do
    let (stage, s) ← requestStep publicValue c false s stage
    pure ((stage.map (ServiceStage.ask r c)).getD (.join r c), s)
  | .join r c => do
    let (_, s) ← s.contactConnecting c.id
    pure (.setup r c, s)
  | .setup r c => do
    let s ← s.setupSecurityConversation (makeUdpAddress r.fromIp r.fromPort) (s.infos c.id).key
      r.publicSecret
    pure (.greet c, s)
  | .greet c => do
    let s ← UserService.sendPingTo (UserService.userState idle) true s c.id
    pure (.idle, s)
  | .fire id event idleEvent => do
    let s ← (match event with
      | none => pure s
      | some true => s.fireContactConnectedEvent id
      | some false => s.fireContactDisconnectedEvent id : Outcome (UserService Public))
    pure (.idle, if idleEvent then s.sendEvent (.contactActivityChanged id) else s)

def reconnectStep (s : UserService Public) :
    ReconnectStage → Outcome (ReconnectStage × UserService Public)
  | .idle => pure (.next s.contacts.list, s)
  | .next [] => pure (.idle, s)
  | .next (c :: rest) =>
    pure (if s.isContactConnecting c.id then .next rest else .testAvailable c rest, s)
  | .testAvailable c rest =>
    pure (if s.contactAvailable c.id then .next rest else .ask c .connecting rest, s)
  | .ask c stage rest => do
    let (stage, s) ← requestStep publicValue c true s stage
    pure ((stage.map fun stage => ReconnectStage.ask c stage rest).getD (.next rest), s)

def confirmStep (s : UserService Public) :
    ConfirmStage → Outcome (ConfirmStage × UserService Public)
  | .idle => pure (.idle, s)
  | .addData c => pure (.checkConnecting c, s.addContactData c)
  | .checkConnecting c => do
    check (!s.isContactConnecting c.id) "!(is_contact_connecting(contact->id()))"
    pure (.checkAvailable c, s)
  | .checkAvailable c => do
    check (!s.contactAvailable c.id) "!(contact_available(contact->id()))"
    pure (.ask c .connecting, s)
  | .ask c stage => do
    let (stage, s) ← requestStep publicValue c true s stage
    pure ((stage.map (ConfirmStage.ask c)).getD .idle, s)

end Stages

namespace Threads

section Steps

variable (p : Threads Public)

/-- Nobody holds `_mutex`. -/
def mutexFree : Bool := p.reconnect = .idle && p.confirm = .idle

/-- The first part of `received_connect_request`. -/
def receiveRequest (r : ConnectRequest Public) : Outcome (Threads Public) := do
  match ← p.user.byId r.fromId with
  | none => pure p
  | some c => do
    let s ← p.user.updateContactVersion c.id r.pv r.cv
    pure { p with
      user := s
      service := .testAvailable r c }

/-- The first part of `received_ping`. -/
def receivePing (fromId : String) (data : Bytes) : Outcome (Threads Public) :=
  match p.user.contactData.lookup fromId with
  | none => pure p
  | some cd =>
    if cd.contact.isNone then pure p
    else do
      let r ← cd.pinged (pingState data)
      pure { p with
        user := p.user.put fromId r.data
        service := .fire fromId (if r.fireEvent then some r.curState else none) r.fireIdleEvent }

/-- The first part of `confirm_contact`: a contact that is neither the user nor
known is added. -/
def startConfirm (c : UserInfo) (info : ContactInfo) : Outcome (Threads Public) :=
  if c.id = p.user.self then pure p
  else do
    match ← p.user.byId c.id with
    | some _ => pure p
    | none => do
      let (_, contacts) ← p.user.contacts.add c
      pure { p with
        user := { p.user with
          contacts := contacts
          infos := Function.update p.user.infos c.id info }
        confirm := .addData c }

/-- A thread that cannot go on stays where it is. -/
def run (publicValue : Nat → Public) : Action Public → Outcome (Threads Public)
  | .request r =>
    match p.service with
    | .idle => p.receiveRequest r
    | _ => pure p
  | .ping fromId data =>
    match p.service with
    | .idle => p.receivePing fromId data
    | _ => pure p
  | .service idle => do
    let (stage, s) ← serviceStep publicValue idle p.mutexFree p.user p.service
    pure { p with
      user := s
      service := stage }
  | .sendPing idle id => do
    let s ← UserService.sendPingTo (UserService.userState idle) false p.user id
    pure { p with user := s }
  | .tick id => do
    let s ← p.user.tickContact id
    pure { p with user := s }
  | .reconnect =>
    if p.confirm = .idle then do
      let (stage, s) ← reconnectStep publicValue p.user p.reconnect
      pure { p with
        user := s
        reconnect := stage }
    else pure p
  | .confirm c info => if p.mutexFree then p.startConfirm c info else pure p
  | .confirmNext => do
    let (stage, s) ← confirmStep publicValue p.user p.confirm
    pure { p with
      user := s
      confirm := stage }

end Steps

end Threads

end Firestr.User
