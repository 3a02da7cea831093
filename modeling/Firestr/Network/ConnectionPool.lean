import Firestr.Library.Runs
import Firestr.Network.Address
import Firestr.Network.TcpReader

/-! The connection manager's pool of outgoing TCP queues. `tcp_send_thread`
runs one `connect` at a time, whose locked sections alternate with the other
threads. -/

set_option autoImplicit false

namespace Firestr.Network

open Firestr.Library.Assoc Firestr.Library.Runs Firestr.Util

/-- `asio_params::connect_mode`. -/
inductive ConnectMode where
  | bind
  | connect
  | delayedConnect
  deriving DecidableEq, Repr

/-- A `tcp_queue` of the pool, with the state of its connection, whether its
threads run, and the address that `connect` was given for it. -/
structure PoolQueue where
  mode : ConnectMode
  host : Bytes := []
  port : UInt16 := 0
  out : Option ConState := none
  inQueue : List Bytes := []
  running : Bool := false
  connectedFor : Option Bytes := none
  deriving DecidableEq, Repr

namespace PoolQueue

/-- `delayed_connect`, whose socket is made. -/
def delayedConnect (q : PoolQueue) : Outcome PoolQueue := do
  require q.out.isNone "!_out"
  pure { q with out := some .disconnected }

/-- The queue of `create_tcp_params`. -/
def new : Outcome PoolQueue := delayedConnect { mode := .delayedConnect }

def isDisconnected (q : PoolQueue) : Bool := q.out == some .disconnected

/-- `!_out || _out->state() == tcp_connection::disconnected`. -/
def unused (q : PoolQueue) : Bool := q.out.isNone || q.isDisconnected

/-- `connect()`. A host that is not resolved is an exception, which it catches. -/
def reconnect (q : PoolQueue) (resolved : Bool) : Outcome PoolQueue := do
  require q.unused "!_out || _out->state() == tcp_connection::disconnected"
  if !resolved then pure q
  else do
    let q ← (if q.out.isNone then q.delayedConnect else pure q)
    require (!q.host.isEmpty) "!(address.empty())"
    require (decide (0 < q.port)) "port > 0"
    pure (if q.isDisconnected then { q with out := some .connecting } else q)

/-- The queue with what `connect` sets, and the address it was given. -/
def addressed (q : PoolQueue) (address host : Bytes) (port : UInt16) : PoolQueue :=
  { q with
    host := host
    port := port
    mode := .connect
    connectedFor := some address }

/-- `connect(host, port)`, for an address. -/
def connect (q : PoolQueue) (address host : Bytes) (port : UInt16) (resolved : Bool) :
    Outcome PoolQueue := do
  require (q.mode == .delayedConnect) "_p.mode == asio_params::delayed_connect"
  require (!host.isEmpty) "!(host.empty())"
  require (!q.running) "!(_run_thread)"
  require q.unused "!_out || _out->state() == tcp_connection::disconnected"
  let q ← (q.addressed address host port).reconnect resolved
  pure { q with running := true }

/-- `send`, as far as it connects again. -/
def send (q : PoolQueue) (resolved : Bool) : Outcome PoolQueue := do
  require (q.mode != .bind) "_p.mode != asio_params::bind"
  check q.out.isSome "_out"
  if q.isDisconnected && q.mode == .connect then q.reconnect resolved else pure q

end PoolQueue

def slotIn (pool : List (Option PoolQueue)) (i : Nat) : Option PoolQueue := pool[i]?.join

/-- What `tcp_send_thread` does: it waits for an item, `connect` has looked for
a slot, has put the address into `_out`, or has returned a queue. -/
inductive ConnectStage where
  | idle
  | searched (address : Bytes) (nextAvailable : Nat)
  | assigned (address : Bytes) (nextAvailable : Nat) (host : Bytes) (port : UInt16)
  | returned (q : Option Nat)
  deriving DecidableEq

/-- `connection_manager`, with how many listening queues it has made and which
of them it has. A queue of the pool is named by its slot. -/
structure ConnectionManager where
  pool : List (Option PoolQueue)
  out : List (Bytes × Nat) := []
  localPort : UInt16
  tcpListen : Bool
  listening : Option Nat := none
  listened : Nat := 0
  stage : ConnectStage := .idle

namespace ConnectionManager

def slot (s : ConnectionManager) (i : Nat) : Option PoolQueue := slotIn s.pool i

def createTcpEndpoint (s : ConnectionManager) : Outcome ConnectionManager := do
  require s.listening.isNone "!(_in)"
  require (decide (0 < s.localPort)) "_local_port > 0"
  pure { s with
    listening := some s.listened
    listened := s.listened + 1 }

def createTcpPool (s : ConnectionManager) : Outcome ConnectionManager := do
  let q ← PoolQueue.new
  pure { s with pool := s.pool.map fun _ => some q }

/-- The entries of `_out` whose slot is not empty. -/
def eraseUnpooled (pool : List (Option PoolQueue)) :
    List (Bytes × Nat) → Outcome (List (Bytes × Nat))
  | [] => pure []
  | e :: rest => do
    check (decide (e.2 < pool.length)) "i->second >= 0 && i->second < _pool.size()"
    let rest ← eraseUnpooled pool rest
    pure (if (slotIn pool e.2).isSome then e :: rest else rest)

def cleanupPool (s : ConnectionManager) : Outcome ConnectionManager := do
  let pool := s.pool.map fun p => p.filter fun q => !q.isDisconnected
  let out ← eraseUnpooled pool s.out
  pure { s with
    pool := pool
    out := out }

def teardownAndRepoolTcpConnections (s : ConnectionManager) : Outcome ConnectionManager := do
  let s ← { s with listening := none }.cleanupPool
  if s.tcpListen then do
    let s ← s.createTcpPool
    s.createTcpEndpoint
  else pure s

def new (size : Nat) (localPort : UInt16) (tcpListen : Bool) : Outcome ConnectionManager := do
  let s ← { pool := List.replicate size none
            localPort := localPort
            tcpListen := tcpListen : ConnectionManager }.teardownAndRepoolTcpConnections
  ensure (!s.pool.isEmpty) "!(_pool.empty())"
  ensure (!s.tcpListen || s.listening.isSome) "!_tcp_listen || _in"
  pure s

def getConnectedQueue (s : ConnectionManager) (address : Bytes) : Outcome (Option Nat) :=
  match s.out.lookup address with
  | none => pure none
  | some i =>
    match s.pool[i]? with
    | none => .error .dangling
    | some none => .error (.raised .check "c")
    | some (some c) => pure (if c.isDisconnected then none else some i)

def findNextAvailable (s : ConnectionManager) : Outcome (Nat × ConnectionManager) := do
  let nextAvailable := s.pool.findIdx (·.isNone)
  let q ← PoolQueue.new
  let s := { s with pool := s.pool.set nextAvailable (some q) }
  ensure (nextAvailable == s.pool.length || (s.slot nextAvailable).isSome)
    "next_available == _pool.size() || _pool[next_available]"
  pure (nextAvailable, s)

/-- The first locked section of `connect`. -/
def connectSearch (s : ConnectionManager) (address : Bytes) : Outcome ConnectionManager := do
  match ← s.getConnectedQueue address with
  | some i => pure { s with stage := .returned (some i) }
  | none => do
    let (nextAvailable, s) ← s.findNextAvailable
    pure { s with stage := .searched address nextAvailable }

/-- The section of `connect` for a pool that has no slot left. -/
def connectRepool (s : ConnectionManager) (address : Bytes) : Outcome ConnectionManager := do
  let s ← s.teardownAndRepoolTcpConnections
  let (nextAvailable, s) ← s.findNextAvailable
  pure { s with
    stage := if s.pool.length ≤ nextAvailable then .returned none
      else .searched address nextAvailable }

/-- `connect` checks the slot, parses the address and records it. An exception
of `parse_address` ends it without a queue. -/
def connectAssign (s : ConnectionManager) (address : Bytes) (nextAvailable : Nat) :
    Outcome ConnectionManager := do
  check (decide (nextAvailable < s.pool.length))
    "next_available >= 0 && next_available < _pool.size()"
  check (s.slot nextAvailable).isSome "_pool[next_available]"
  check ((s.slot nextAvailable).any (·.isDisconnected)) "_pool[next_available]->is_disconnected()"
  match parseAddress address [] with
  | .ok a =>
    pure { s with
      out := assign s.out address nextAvailable
      stage := .assigned address nextAvailable a.host a.port }
  | .error (.thrown _) => pure { s with stage := .returned none }
  | .error fault => .error fault

/-- `connect` connects the queue in the slot and returns it. -/
def connectDial (s : ConnectionManager) (address : Bytes) (nextAvailable : Nat) (host : Bytes)
    (port : UInt16) (resolved : Bool) : Outcome ConnectionManager :=
  match s.slot nextAvailable with
  | none => .error .dangling
  | some q => do
    let q ← q.connect address host port resolved
    ensure (decide (nextAvailable ≤ s.pool.length))
      "next_available >= 0 && next_available <= _pool.size()"
    pure { s with
      pool := s.pool.set nextAvailable (some q)
      stage := .returned (some nextAvailable) }

/-- `tcp_send_thread` sends to the queue that `connect` returned, if any. -/
def sendReturned (s : ConnectionManager) (q : Option Nat) (resolved : Bool) :
    Outcome ConnectionManager :=
  match q with
  | none => pure { s with stage := .idle }
  | some i =>
    match s.slot i with
    | none => .error .dangling
    | some o => do
      let o ← o.send resolved
      pure { s with
        pool := s.pool.set i (some o)
        stage := .idle }

/-- The step `OUT_TCP` of `receive`, which walks `_out` in an order. -/
def receiveOutTcp (s : ConnectionManager) :
    List (Bytes × Nat) → Outcome (Option Bytes × ConnectionManager)
  | [] => pure (none, s)
  | p :: rest => do
    check (decide (p.2 < s.pool.length)) "i >= 0 && i < _pool.size()"
    match s.slot p.2 with
    | none => .error (.raised .check "c")
    | some c =>
      match c.inQueue with
      | [] => s.receiveOutTcp rest
      | b :: later => do
        check c.out.isSome "s"
        pure (some b, { s with pool := s.pool.set p.2 (some { c with inQueue := later }) })

def change (s : ConnectionManager) (i : Nat) (f : PoolQueue → PoolQueue) : ConnectionManager :=
  match s.slot i with
  | none => s
  | some q => { s with pool := s.pool.set i (some (f q)) }

end ConnectionManager

inductive PoolEvent where
  | connect (address : Bytes)
  | repool
  | assign
  | dial (resolved : Bool)
  | send (resolved : Bool)
  | teardown
  | established (i : Nat)
  | closed (i : Nat)
  | arrives (i : Nat) (b : Bytes)
  | receive (order : List (Bytes × Nat))
  deriving DecidableEq

/-- A step of another thread than `tcp_send_thread`. -/
def PoolEvent.isOther : PoolEvent → Bool
  | .established _ | .closed _ | .arrives _ _ | .receive _ => true
  | _ => false

open ConnectionManager

/-- A section of `tcp_send_thread`, a change of a connection, or `receive`. -/
inductive PoolStep (s : ConnectionManager) : PoolEvent → ConnectionManager → Prop where
  | connect {address : Bytes} {next : ConnectionManager} : s.stage = .idle →
      s.connectSearch address = .ok next → PoolStep s (.connect address) next
  | repool {address : Bytes} {n : Nat} {next : ConnectionManager} :
      s.stage = .searched address n → s.pool.length ≤ n →
      s.connectRepool address = .ok next → PoolStep s .repool next
  | assign {address : Bytes} {n : Nat} {next : ConnectionManager} :
      s.stage = .searched address n → n < s.pool.length →
      s.connectAssign address n = .ok next → PoolStep s .assign next
  | dial {address host : Bytes} {n : Nat} {port : UInt16} {resolved : Bool}
      {next : ConnectionManager} : s.stage = .assigned address n host port →
      s.connectDial address n host port resolved = .ok next → PoolStep s (.dial resolved) next
  | send {q : Option Nat} {resolved : Bool} {next : ConnectionManager} :
      s.stage = .returned q → s.sendReturned q resolved = .ok next →
      PoolStep s (.send resolved) next
  | teardown {next : ConnectionManager} : s.stage = .idle →
      s.teardownAndRepoolTcpConnections = .ok next → PoolStep s .teardown next
  | established {i : Nat} {q : PoolQueue} : s.slot i = some q → q.out = some .connecting →
      PoolStep s (.established i) (s.change i fun q => { q with out := some .connected })
  | closed {i : Nat} {q : PoolQueue} : s.slot i = some q → q.out.isSome →
      PoolStep s (.closed i) (s.change i fun q => { q with out := some .disconnected })
  | arrives {i : Nat} {q : PoolQueue} {b : Bytes} : s.slot i = some q →
      PoolStep s (.arrives i b) (s.change i fun q => { q with inQueue := q.inQueue ++ [b] })
  | receive {order : List (Bytes × Nat)} {b : Option Bytes} {next : ConnectionManager} :
      order.Perm s.out → s.receiveOutTcp order = .ok (b, next) →
      PoolStep s (.receive order) next

abbrev PoolRun : List PoolEvent → ConnectionManager → Prop :=
  Run (fun s => ∃ size localPort tcpListen,
    ConnectionManager.new size localPort tcpListen = .ok s) PoolStep

end Firestr.Network
