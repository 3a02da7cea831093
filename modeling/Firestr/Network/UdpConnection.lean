import Mathlib.Logic.Function.Basic
import Firestr.Network.UdpWire

/-! The state of one `udp_connection` and its handlers. The io service runs
one handler at a time, so each is a function from the state before it to the
state after it, or to the fault that stops it. -/

set_option autoImplicit false

namespace Firestr.Network

open Firestr.Util

/-- What the connection uses of `boost::asio::ip::address`: the text of an
address reads back as that address. -/
structure IpAddresses (Address : Type) where
  fromString : String → Option Address
  toString : Address → String
  fromString_toString : ∀ address, fromString (toString address) = some address

structure WorkingMessage where
  proto : MessageChunk := {}
  data : Bytes := []
  set : List Bool := []
  sent : List Bool := []
  ticks : Nat := 0
  inFlight : Nat := 0
  queued : Nat := 0
  nextSend : Nat := 0
  deriving DecidableEq, Repr

/-- `unordered_map<sequence_type, working_message>`. -/
abbrev WorkingMessages := UInt64 → Option WorkingMessage

def WorkingMessages.put (w : WorkingMessages) (sequence : UInt64) (wm : WorkingMessage) :
    WorkingMessages :=
  Function.update w sequence (some wm)

def WorkingMessages.erase (w : WorkingMessages) (sequence : UInt64) : WorkingMessages :=
  Function.update w sequence none

section WorkingMessages

variable (w : WorkingMessages) (sequence : UInt64) (wm : WorkingMessage)

@[simp] theorem WorkingMessages.put_self : w.put sequence wm sequence = some wm := by
  simp [put]

theorem WorkingMessages.put_of_ne {other : UInt64} (different : other ≠ sequence) :
    w.put sequence wm other = w other := by
  simp [put, different]

theorem WorkingMessages.put_apply (other : UInt64) :
    w.put sequence wm other = if other = sequence then some wm else w other := by
  simp [put, Function.update_apply]

@[simp] theorem WorkingMessages.erase_self : w.erase sequence sequence = none := by
  simp [erase]

theorem WorkingMessages.erase_of_ne {other : UInt64} (different : other ≠ sequence) :
    w.erase sequence other = w other := by
  simp [erase, different]

theorem WorkingMessages.erase_apply (other : UInt64) :
    w.erase sequence other = if other = sequence then none else w other := by
  simp [erase, Function.update_apply]

@[simp] theorem WorkingMessages.put_put (earlier : WorkingMessage) :
    (w.put sequence earlier).put sequence wm = w.put sequence wm :=
  Function.update_idem ..

@[simp] theorem WorkingMessages.erase_put : (w.put sequence wm).erase sequence = w.erase sequence :=
  Function.update_idem ..

theorem WorkingMessages.put_eq_some {other : UInt64} {found : WorkingMessage} :
    w.put sequence wm other = some found ↔
      (other = sequence ∧ found = wm) ∨ (other ≠ sequence ∧ w other = some found) := by
  rw [put_apply]
  split <;> simp_all [eq_comm]

theorem WorkingMessages.erase_eq_some {other : UInt64} {found : WorkingMessage} :
    w.erase sequence other = some found ↔ other ≠ sequence ∧ w other = some found := by
  rw [erase_apply]
  split <;> simp_all

end WorkingMessages

/-- An item of the ring. The pointer `wm` into `_out_working` is the key of
the node it points to: map nodes do not move, and the key is fixed. -/
structure MessageRingItem where
  wm : UInt64
  resends : List UInt16
  deriving DecidableEq, Repr

/-- The handlers that other threads and the connection itself post. -/
inductive Posted where
  | addToWorkingSet (m : EndpointMessage)
  | doSend
  | resend
  deriving DecidableEq, Repr

structure Datagram (Address : Type) where
  address : Address
  port : UInt16
  bytes : Bytes
  deriving DecidableEq, Repr

/-- `udp_connection`, with what it has given to its io service and socket:
`posted` are the posted handlers that have not run, oldest first, `outstanding`
counts the started writes whose handler has not run, and `datagrams` are all
writes ever started. `inQueue` keeps what the receiving thread has taken. -/
structure UdpConnection (Address : Type) where
  inWorking : WorkingMessages := fun _ => none
  outWorking : WorkingMessages := fun _ => none
  inQueue : List EndpointMessage := []
  nextMessage : Nat := 0
  messageRing : List MessageRingItem := []
  outQueue : List MessageChunk := []
  outBuffer : Bytes := []
  sequence : UInt64 := 0
  posted : List Posted := []
  outstanding : Nat := 0
  datagrams : List (Datagram Address) := []

variable {Address : Type}

namespace UdpConnection

def postSend (s : UdpConnection Address) : UdpConnection Address :=
  { s with posted := s.posted ++ [.doSend] }

/-- Read through a pointer into `_out_working`. -/
def deref (s : UdpConnection Address) (wm : UInt64) : Outcome WorkingMessage :=
  match s.outWorking wm with
  | some wm => .ok wm
  | none => .error .dangling

def initWorking (s : UdpConnection Address) (proto : MessageChunk) (data : Bytes) :
    Outcome (UdpConnection Address) := do
  require (decide (proto.totalChunks.toNat > 0)) "proto.total_chunks > 0"
  let wm := (s.outWorking proto.sequence).getD {}
  let wm := { wm with
    proto := proto
    data := data
    set := resize wm.set proto.totalChunks.toNat false
    sent := resize wm.sent proto.totalChunks.toNat false }
  pure { s with
    outWorking := s.outWorking.put proto.sequence wm
    messageRing := s.messageRing ++ [{ wm := proto.sequence, resends := [] }] }

def cleanupMessage (s : UdpConnection Address) (sequence : UInt64) :
    Outcome (UdpConnection Address) := do
  let ringIter := s.messageRing.findIdx? fun i =>
    (s.outWorking i.wm).any fun wm => wm.proto.sequence == sequence
  check ringIter.isSome "ring_iter != _message_ring.end()"
  pure { s with
    messageRing := s.messageRing.eraseIdx (ringIter.getD 0)
    outWorking := s.outWorking.erase sequence }

end UdpConnection

def allSent (wm : WorkingMessage) : Bool :=
  wm.sent.count true == wm.proto.totalChunks.toNat

def WorkingMessage.robust (wm : WorkingMessage) : Bool := wm.proto.type == .msg

def UdpConnection.sentChunk (s : UdpConnection Address) (c : MessageChunk) :
    Outcome (UdpConnection Address) := do
  require (c.type != .ack) "c.type != message_chunk::ack"
  require (!c.resent) "!(c.resent)"
  let wm := (s.outWorking c.sequence).getD {}
  let wm := { wm with sent := wm.sent.set c.chunk.toNat true }
  let wm := if wm.queued > 0 then { wm with queued := wm.queued - 1 } else wm
  if wm.robust then
    pure { s with outWorking := s.outWorking.put c.sequence
                    { wm with inFlight := wm.inFlight + 1 } }
  else
    let s := { s with outWorking := s.outWorking.put c.sequence wm }
    if allSent wm then s.cleanupMessage c.sequence else pure s

def UdpConnection.validateChunk (s : UdpConnection Address) (c : MessageChunk) :
    Outcome (UdpConnection Address) := do
  require (c.type == .ack) "c.type == message_chunk::ack"
  match s.outWorking c.sequence with
  | none => pure s
  | some wm =>
    if c.chunk.toNat ≥ wm.proto.totalChunks.toNat then pure s
    else if c.totalChunks ≠ wm.proto.totalChunks then pure s
    else if wm.set.getD c.chunk.toNat false then pure s
    else
      let wm := { wm with set := wm.set.set c.chunk.toNat true, ticks := 0 }
      let wm := if wm.inFlight > 0 then { wm with inFlight := wm.inFlight - 1 } else wm
      let s := { s with outWorking := s.outWorking.put c.sequence wm }
      if wm.set.count true ≠ wm.proto.totalChunks.toNat then pure s
      else do
        check (wm.sent.count true == wm.proto.totalChunks.toNat)
          "wm.sent.count() == wm.proto.total_chunks"
        check (wm.inFlight == 0) "wm.in_flight == 0"
        check (wm.queued == 0) "wm.queued == 0"
        s.cleanupMessage c.sequence

def UdpConnection.sendRightAway (s : UdpConnection Address) (c : MessageChunk) :
    UdpConnection Address :=
  { s with outQueue := s.outQueue ++ [c] }.postSend

def nthChunk (n : Nat) (proto : MessageChunk) (data : Bytes) : Outcome MessageChunk := do
  require (decide (n < proto.totalChunks.toNat)) "n < prototype.total_chunks"
  let start := n * udpChunkSize
  let stop := min data.length (start + udpChunkSize)
  let size := subSize stop start
  check (decide (size > 0)) "size > 0"
  let c := { proto with chunk := UInt16.ofNat n, writeData := (data.drop start).take size }
  ensure (c.chunk.toNat == n) "c.chunk == n"
  ensure (decide (size > 0)) "c.write_size > 0"
  pure c

/-- The next chunk of `wm` and `wm` after it, if its window is open. -/
def getNextChunk (wm : WorkingMessage) : Outcome (Option (MessageChunk × WorkingMessage)) := do
  require (decide (wm.proto.totalChunks.toNat > 0)) "wm.proto.total_chunks > 0"
  let inFlight := if wm.robust then wm.inFlight else 0
  if inFlight + wm.queued > maxFlight then pure none
  else do
    let t := maxFlight - (inFlight + wm.queued)
    check (decide (t ≥ 0)) "t >= 0"
    if t = 0 ∨ wm.nextSend ≥ wm.proto.totalChunks.toNat then pure none
    else do
      let queuedChunk ← nthChunk wm.nextSend wm.proto wm.data
      pure (some (queuedChunk,
        { wm with nextSend := wm.nextSend + 1, queued := wm.queued + 1 }))

namespace UdpConnection

def queueResend (s : UdpConnection Address) (r : MessageRingItem) (nth : UInt16) :
    MessageRingItem × UdpConnection Address :=
  ({ r with resends := r.resends ++ [nth] }, s.postSend)

def incrNextMessage (s : UdpConnection Address) : Outcome (Bool × UdpConnection Address) := do
  if s.messageRing.isEmpty then pure (false, { s with nextMessage := 0 })
  else do
    let s := { s with nextMessage := (s.nextMessage + 1) % s.messageRing.length }
    ensure (decide (s.nextMessage < s.messageRing.length))
      "_next_message >= 0 && _next_message < _message_ring.size()"
    pure (true, s)

/-- The loop of `queue_next_chunk`: go round the ring up to `stop`. -/
def queueNextChunkLoop (stop : Nat) :
    Nat → UdpConnection Address → Outcome (UdpConnection Address)
  | 0, _ => .error .diverged
  | fuel + 1, s => do
    match s.messageRing[s.nextMessage]? with
    | none => .error .dangling
    | some r => do
      let wm ← s.deref r.wm
      match ← getNextChunk wm with
      | some (c, wm) =>
        pure { s with
          outWorking := s.outWorking.put r.wm wm
          outQueue := s.outQueue ++ [c] }
      | none =>
        match r.resends with
        | resendId :: rest => do
          let mc ← nthChunk resendId.toNat wm.proto wm.data
          pure { s with
            messageRing := s.messageRing.set s.nextMessage { r with resends := rest }
            outQueue := s.outQueue ++ [{ mc with resent := true }] }
        | [] => do
          let (_, s) ← s.incrNextMessage
          if s.nextMessage ≠ stop then queueNextChunkLoop stop fuel s else pure s

def queueNextChunk (s : UdpConnection Address) : Outcome (UdpConnection Address) := do
  let (some?, s) ← s.incrNextMessage
  if some? then queueNextChunkLoop s.nextMessage s.messageRing.length s else pure s

end UdpConnection

def totalChunks (dataSize : Nat) : Outcome UInt16 := do
  require (decide (dataSize > 0)) "data_size > 0"
  let r := UInt16.ofNat (dataSize / udpChunkSize)
  let r := if dataSize % udpChunkSize ≠ 0 then r + 1 else r
  ensure (decide (r.toNat > 0)) "r > 0"
  pure r

def createPrototype (sequence : UInt64) (m : EndpointMessage) : Outcome MessageChunk := do
  let total ← totalChunks m.data.length
  pure {
    valid := true
    type := if m.robust then .msg else .qmsg
    host := m.ep.address
    port := m.ep.port
    sequence := sequence
    totalChunks := total
    chunk := 0 }

namespace UdpConnection

def addToWorkingSet (s : UdpConnection Address) (m : EndpointMessage) :
    Outcome (UdpConnection Address) := do
  require (!m.data.isEmpty) "!(m.data.empty())"
  let s := { s with sequence := s.sequence + 1 }
  let proto ← createPrototype s.sequence m
  s.initWorking proto m.data

/-- Whether `send` accepts a message and posts it. -/
def accepts (m : EndpointMessage) : Bool :=
  !m.data.isEmpty && decide (m.data.length ≤ maxMessageSize)

variable (ip : IpAddresses Address)

def doSend (s : UdpConnection Address) : Outcome (UdpConnection Address) := do
  let s ← (if s.outQueue.isEmpty then s.queueNextChunk else pure s)
  match s.outQueue with
  | [] => pure s
  | c :: rest => do
    let s := { s with outQueue := rest }
    let outBuffer ← encodeUdpWire s.outBuffer c
    let s := { s with outBuffer := outBuffer }
    match ip.fromString c.host with
    -- `address::from_string` throws, and `udp_run_thread` logs the exception
    | none => pure s
    | some address =>
      let s := { s with
        outstanding := s.outstanding + 1
        datagrams := s.datagrams ++ [{ address := address, port := c.port, bytes := outBuffer }] }
      if !c.resent && c.type != .ack then s.sentChunk c else pure s

def handleWrite (s : UdpConnection Address) : Outcome (UdpConnection Address) :=
  doSend ip { s with outstanding := s.outstanding - 1 }

end UdpConnection

/-- Whether the message is complete, the working set after the chunk, and the
complete message. -/
def insertChunk (c : MessageChunk) (w : WorkingMessages) :
    Outcome (Bool × WorkingMessages × Bytes) := do
  require (c.type == .msg || c.type == .qmsg)
    "c.type == message_chunk::msg || c.type == message_chunk::qmsg"
  if c.totalChunks.toNat = 0 then return (false, w, [])
  let wm := (w c.sequence).getD {}
  let w := w.put c.sequence wm
  let maxSize := c.totalChunks.toNat * udpChunkSize
  let fresh := wm.proto.totalChunks.toNat = 0
  if fresh ∧ maxSize > maxMessageSize then return (false, w, [])
  let wm := if fresh then
      { wm with
        proto := { c with data := [] }
        data := resize wm.data maxSize 0
        set := resize wm.set c.totalChunks.toNat false }
    else wm
  let w := w.put c.sequence wm
  check (decide (wm.proto.totalChunks.toNat > 0)) "wm.proto.total_chunks > 0"
  if c.chunk.toNat ≥ wm.proto.totalChunks.toNat then return (false, w, [])
  if c.totalChunks ≠ wm.proto.totalChunks then return (false, w, [])
  if wm.set.getD c.chunk.toNat false then return (false, w, [])
  let last := c.chunk.toNat = wm.proto.totalChunks.toNat - 1
  let wm ← (if last then do
      let extra := subSize udpChunkSize c.data.length
      check (decide (extra ≥ 0)) "extra >= 0"
      pure { wm with data := resize wm.data (subSize wm.data.length extra) 0 }
    else pure wm)
  if ¬ last ∧ c.data.length ≠ udpChunkSize then return (false, w, [])
  let insertSpot := c.chunk.toNat * udpChunkSize
  let wm := { wm with
    data := copyAt wm.data insertSpot c.data
    set := wm.set.set c.chunk.toNat true }
  if wm.set.count true ≠ wm.proto.totalChunks.toNat then
    return (false, w.put c.sequence wm, [])
  return (true, w.erase c.sequence, wm.data)

namespace UdpConnection

variable (ip : IpAddresses Address)

/-- `handle_read` without an error. With one it only reads on. -/
def handleRead (s : UdpConnection Address) (source : Address × UInt16) (datagram : Bytes) :
    Outcome (UdpConnection Address) := do
  check (decide (datagram.length ≤ maxUdpBuffSize)) "transferred <= _in_buffer.size()"
  let c ← (if datagram.length ≥ headerSize then decodeUdpWire datagram else pure {})
  if c.valid then
    let ep : Endpoint := { protocol := udp, address := ip.toString source.1, port := source.2 }
    if c.type ≠ .ack then
      let robust := c.type == .msg
      let s := if robust then
          s.sendRightAway {
            type := .ack
            host := ep.address
            port := ep.port
            sequence := c.sequence
            totalChunks := c.totalChunks
            chunk := c.chunk }
        else s
      let (inserted, inWorking, workBuffer) ← insertChunk c s.inWorking
      let s := { s with inWorking := inWorking }
      if inserted then
        pure { s with inQueue := s.inQueue ++ [{ ep := ep, data := workBuffer, robust := robust }] }
      else pure s
    else
      let s ← s.validateChunk c
      pure s.postSend
  else pure s

end UdpConnection

/-- The loop of `resend` over the chunk ids of one message: how many it has
found, and the ids it queues. -/
def resendChunks (wm : WorkingMessage) : List Nat → Nat → Nat → List UInt16 → Nat × List UInt16
  | [], _, resentM, ids => (resentM, ids)
  | c :: cs, cnt, resentM, ids =>
    if cnt ≥ wm.nextSend then (resentM, ids)
    else if wm.set.getD c false || !wm.sent.getD c false then
      resendChunks wm cs (cnt + 1) resentM ids
    else if resentM + 1 > maxFlight then (resentM + 1, ids)
    else resendChunks wm cs (cnt + 1) (resentM + 1) (ids ++ [UInt16.ofNat c])

namespace UdpConnection

/-- Queue and post each id. -/
def queueResends (s : UdpConnection Address) (r : MessageRingItem) :
    List UInt16 → MessageRingItem × UdpConnection Address
  | [] => (r, s)
  | nth :: rest =>
    let (r, s) := s.queueResend r nth
    s.queueResends r rest

/-- `resend` of one ring item. -/
def resendItem (s : UdpConnection Address) (r : MessageRingItem) :
    Outcome (Nat × MessageRingItem × UdpConnection Address) := do
  let wm ← s.deref r.wm
  require (decide (wm.proto.totalChunks.toNat > 0)) "wm.proto.total_chunks > 0"
  require (decide (wm.data.length > 0)) "wm.data.size() > 0"
  if wm.set.count true = wm.proto.totalChunks.toNat then pure (0, r, s)
  else
    let (resentM, ids) := resendChunks wm (List.range wm.proto.totalChunks.toNat) 0 0 []
    pure (resentM, s.queueResends r ids)

/-- The loop of `resend` over the ring: the ring after it, whether anything
was resent, and the sequence numbers of the exhausted messages. -/
def resendLoop (s : UdpConnection Address) : List MessageRingItem →
    Outcome (List MessageRingItem × Bool × List UInt64 × UdpConnection Address)
  | [] => pure ([], false, [], s)
  | r :: rest => do
    let wm ← s.deref r.wm
    check (decide (wm.proto.totalChunks.toNat > 0)) "wm.proto.total_chunks > 0"
    let wm := { wm with ticks := wm.ticks + 1 }
    let s := { s with outWorking := s.outWorking.put r.wm wm }
    let skip := decide (wm.ticks ≤ resendTickThreshold)
    let (resentM, r, s) ← (if wm.robust && !skip then s.resendItem r else pure (0, r, s))
    let erase := if wm.robust then decide (wm.ticks ≥ resendThreshold) else allSent wm
    let (ring, resent, em, s) ← s.resendLoop rest
    pure (r :: ring, decide (resentM > 0) || resent,
      if erase then wm.proto.sequence :: em else em, s)

def resend (s : UdpConnection Address) : Outcome (UdpConnection Address) := do
  let (ring, resent, em, s) ← s.resendLoop s.messageRing
  let s ← em.foldlM cleanupMessage { s with messageRing := ring }
  pure (if resent then s.postSend else s)

end UdpConnection

inductive Handler (Address : Type) where
  | addToWorkingSet (m : EndpointMessage)
  | doSend
  | handleWrite
  | handleRead (source : Address × UInt16) (datagram : Bytes)
  | resend

def Handler.run (ip : IpAddresses Address) (s : UdpConnection Address) :
    Handler Address → Outcome (UdpConnection Address)
  | .addToWorkingSet m => s.addToWorkingSet m
  | .doSend => s.doSend ip
  | .handleWrite => s.handleWrite ip
  | .handleRead source datagram => s.handleRead ip source datagram
  | .resend => s.resend

def Posted.handler : Posted → Handler Address
  | .addToWorkingSet m => .addToWorkingSet m
  | .doSend => .doSend
  | .resend => .resend

end Firestr.Network
