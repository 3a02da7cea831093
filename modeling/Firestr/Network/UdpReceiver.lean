import Firestr.Network.UdpConnection
import Firestr.Network.UdpWireProperties

/-! The receiving half of a connection: what `insert_chunk` does with a chunk,
and what `handle_read` does with a datagram of any bytes. -/

set_option autoImplicit false

namespace Firestr.Network

open Firestr.Util

/-- The entry that a chunk meets: the one under its sequence number, or a
fresh one for its total. -/
def entryFor (c : MessageChunk) (w : WorkingMessages) : WorkingMessage :=
  let wm := (w c.sequence).getD {}
  if wm.proto.totalChunks.toNat = 0 then
    { wm with
      proto := { c with data := [] }
      data := resize wm.data (c.totalChunks.toNat * udpChunkSize) 0
      set := resize wm.set c.totalChunks.toNat false }
  else wm

def WorkingMessage.takes (wm : WorkingMessage) (c : MessageChunk) : Bool :=
  decide (c.chunk.toNat < wm.proto.totalChunks.toNat) &&
    decide (c.totalChunks = wm.proto.totalChunks) && !wm.set.getD c.chunk.toNat false &&
    (decide (c.chunk.toNat = wm.proto.totalChunks.toNat - 1) ||
      decide (c.data.length = udpChunkSize))

def WorkingMessage.filled (wm : WorkingMessage) (c : MessageChunk) : WorkingMessage :=
  { wm with
    data := copyAt (if c.chunk.toNat = wm.proto.totalChunks.toNat - 1 then
        resize wm.data (subSize wm.data.length (subSize udpChunkSize c.data.length)) 0
      else wm.data) (c.chunk.toNat * udpChunkSize) c.data
    set := wm.set.set c.chunk.toNat true }

def WorkingMessage.complete (wm : WorkingMessage) : Bool :=
  decide (wm.set.count true = wm.proto.totalChunks.toNat)

/-- What `insert_chunk` returns and leaves. -/
def insertion (c : MessageChunk) (w : WorkingMessages) : Bool × WorkingMessages × Bytes :=
  if c.totalChunks.toNat = 0 then (false, w, [])
  else if (entryFor c w).takes c then
    if ((entryFor c w).filled c).complete then
      (true, w.erase c.sequence, ((entryFor c w).filled c).data)
    else (false, w.put c.sequence ((entryFor c w).filled c), [])
  else (false, w.put c.sequence (entryFor c w), [])

section InsertChunk

variable {c : MessageChunk} {w : WorkingMessages}

theorem entryFor_counted (some? : c.totalChunks.toNat ≠ 0) :
    (entryFor c w).proto.totalChunks.toNat ≠ 0 := by
  rw [entryFor]
  split
  · exact some?
  · assumption

theorem takes_iff {wm : WorkingMessage} :
    wm.takes c = true ↔ c.chunk.toNat < wm.proto.totalChunks.toNat ∧
      c.totalChunks = wm.proto.totalChunks ∧ ¬ wm.set.getD c.chunk.toNat false = true ∧
      (c.chunk.toNat = wm.proto.totalChunks.toNat - 1 ∨ c.data.length = udpChunkSize) := by
  simp only [WorkingMessage.takes, Bool.and_eq_true, Bool.or_eq_true, decide_eq_true_eq,
    Bool.not_eq_true', Bool.not_eq_true, and_assoc]

theorem insertChunk_eq (data? : c.type ≠ .ack) : insertChunk c w = .ok (insertion c w) := by
  have kind : (c.type == .msg || c.type == .qmsg) = true := by
    cases typed : c.type with
    | ack => exact absurd typed data?
    | msg => rfl
    | qmsg => rfl
  simp only [insertChunk, kind, require_true, ok_bind, insertion, pure_ok]
  by_cases empty : c.totalChunks.toNat = 0
  · rw [if_pos empty, if_pos empty]
  rw [if_neg empty, if_neg empty]
  have fits : ¬ c.totalChunks.toNat * udpChunkSize > maxMessageSize := by
    have small := c.totalChunks.toNat_lt
    rw [maxMessageSize, maxChunks, udpChunkSize_eq]
    omega
  simp only [fits, and_false, if_false]
  have entry : (if ((w c.sequence).getD {}).proto.totalChunks.toNat = 0 then
      ({ (w c.sequence).getD {} with
        proto := { c with data := [] }
        data := resize ((w c.sequence).getD {}).data (c.totalChunks.toNat * udpChunkSize) 0
        set := resize ((w c.sequence).getD {}).set c.totalChunks.toNat false } : WorkingMessage)
    else (w c.sequence).getD {}) = entryFor c w := rfl
  have counted := entryFor_counted (w := w) empty
  rw [entry]
  generalize entryFor c w = wm at counted
  simp only [decide_eq_true (Nat.pos_of_ne_zero counted : wm.proto.totalChunks.toNat > 0),
    check_true, ok_bind, WorkingMessages.put_put]
  have extra : decide (subSize udpChunkSize c.data.length ≥ 0) = true :=
    decide_eq_true (Nat.zero_le _)
  have resized : (if c.chunk.toNat = wm.proto.totalChunks.toNat - 1 then do
        check (decide (subSize udpChunkSize c.data.length ≥ 0)) "extra >= 0"
        Except.ok { wm with
          data := resize wm.data (subSize wm.data.length (subSize udpChunkSize c.data.length)) 0 }
      else Except.ok wm : Outcome WorkingMessage) =
        .ok { wm with
          data := if c.chunk.toNat = wm.proto.totalChunks.toNat - 1 then
              resize wm.data (subSize wm.data.length (subSize udpChunkSize c.data.length)) 0
            else wm.data } := by
    rw [extra]
    split <;> rfl
  rw [resized]
  by_cases taken : wm.takes c = true
  · obtain ⟨inside, same, unset, shape⟩ := takes_iff.mp taken
    have sized : ¬ (¬ c.chunk.toNat = wm.proto.totalChunks.toNat - 1 ∧
        c.data.length ≠ udpChunkSize) := fun ⟨other, wrong⟩ => shape.elim other wrong
    rw [if_neg (Nat.not_le.mpr inside), if_neg (not_not.mpr same), if_neg unset, if_pos taken,
      ok_bind, if_neg sized]
    by_cases full : ((wm.filled c).complete) = true
    · rw [if_pos full, WorkingMessages.erase_put]
      exact if_neg (not_not.mpr (of_decide_eq_true full))
    · rw [if_neg full]
      exact if_pos (of_decide_eq_false (Bool.not_eq_true _ |>.mp full))
  · rw [if_neg taken, ok_bind]
    by_cases outside : c.chunk.toNat ≥ wm.proto.totalChunks.toNat
    · rw [if_pos outside]
    by_cases different : c.totalChunks ≠ wm.proto.totalChunks
    · rw [if_neg outside, if_pos different]
    by_cases known : wm.set.getD c.chunk.toNat false = true
    · rw [if_neg outside, if_neg different, if_pos known]
    have refused : ¬ c.chunk.toNat = wm.proto.totalChunks.toNat - 1 ∧
        c.data.length ≠ udpChunkSize :=
      not_or.mp fun shape =>
        taken (takes_iff.mpr ⟨Nat.not_le.mp outside, not_not.mp different, known, shape⟩)
    rw [if_neg outside, if_neg different, if_neg known, if_pos refused]

end InsertChunk

/-- A datagram that carries a chunk. -/
structure Arrives (datagram : Bytes) (c : MessageChunk) : Prop where
  long : headerSize ≤ datagram.length
  decoded : decodeUdpWire datagram = .ok c
  valid : c.valid = true

theorem Arrives.unique {datagram : Bytes} {c other : MessageChunk} (arrives : Arrives datagram c)
    (again : Arrives datagram other) : c = other :=
  Except.ok.inj (arrives.decoded.symm.trans again.decoded)

theorem arrives_wire {ch : MessageChunk}
    (small : headerSize + ch.writeData.length ≤ maxUdpBuffSize) :
    Arrives (wire ch) (received ch) where
  long := by rw [length_wire, headerSize_eq]; omega
  decoded := decodeUdpWire_wire (le_trans (Nat.le_add_left ..) small)
  valid := rfl

def ackFor (ep : Endpoint) (c : MessageChunk) : MessageChunk :=
  { type := .ack
    host := ep.address
    port := ep.port
    sequence := c.sequence
    totalChunks := c.totalChunks
    chunk := c.chunk }

variable {Address : Type}

/-- The connection after a data chunk from `ep`: a robust one is answered,
and the message it completes is pushed. -/
def UdpConnection.takeChunk (s : UdpConnection Address) (ep : Endpoint) (c : MessageChunk) :
    UdpConnection Address :=
  { s with
    outQueue := if c.type = .msg then s.outQueue ++ [ackFor ep c] else s.outQueue
    posted := if c.type = .msg then s.posted ++ [.doSend] else s.posted
    inWorking := (insertion c s.inWorking).2.1
    inQueue := if (insertion c s.inWorking).1 then
        s.inQueue ++
          [{ ep := ep, data := (insertion c s.inWorking).2.2, robust := c.type == .msg }]
      else s.inQueue }

def sourceEndpoint (ip : IpAddresses Address) (source : Address × UInt16) : Endpoint :=
  { protocol := udp, address := ip.toString source.1, port := source.2 }

section HandleRead

variable {ip : IpAddresses Address} {s : UdpConnection Address} {source : Address × UInt16}
  {datagram : Bytes}

theorem handleRead_data {c : MessageChunk} (small : datagram.length ≤ maxUdpBuffSize)
    (arrives : Arrives datagram c) (data? : c.type ≠ .ack) :
    s.handleRead ip source datagram = .ok (s.takeChunk (sourceEndpoint ip source) c) := by
  simp only [UdpConnection.handleRead, decide_eq_true small, check_true, ok_bind,
    if_pos (show datagram.length ≥ headerSize from arrives.long), arrives.decoded, arrives.valid,
    if_true, if_pos data?, insertChunk_eq data?, pure_ok]
  rw [UdpConnection.takeChunk]
  cases typed : c.type with
  | ack => exact absurd typed data?
  | msg =>
      cases inserted : (insertion c s.inWorking).1 <;>
        simp [UdpConnection.sendRightAway, UdpConnection.postSend, inserted, ackFor,
          sourceEndpoint]
  | qmsg => cases inserted : (insertion c s.inWorking).1 <;> simp [inserted, sourceEndpoint]

theorem handleRead_ack {c : MessageChunk} (small : datagram.length ≤ maxUdpBuffSize)
    (arrives : Arrives datagram c) (ack : c.type = .ack) :
    s.handleRead ip source datagram = (do
      let s ← s.validateChunk c
      pure s.postSend) := by
  simp only [UdpConnection.handleRead, decide_eq_true small, check_true, ok_bind,
    if_pos (show datagram.length ≥ headerSize from arrives.long), arrives.decoded, arrives.valid,
    if_true, ack, ne_eq, not_true, if_false, pure_ok]

theorem handleRead_other (small : datagram.length ≤ maxUdpBuffSize)
    (none? : ∀ c, ¬ Arrives datagram c) : s.handleRead ip source datagram = .ok s := by
  by_cases long : headerSize ≤ datagram.length
  · rcases decodeUdpWire_total long small with empty | ⟨sequence, total, chunk, type, -, decoded⟩
    · simp only [UdpConnection.handleRead, decide_eq_true small, check_true, ok_bind,
        if_pos (show datagram.length ≥ headerSize from long), empty, pure_ok]
      rfl
    · exact absurd ⟨long, decoded, rfl⟩ (none? _)
  · simp only [UdpConnection.handleRead, decide_eq_true small, check_true, ok_bind,
      if_neg (show ¬ datagram.length ≥ headerSize from long), pure_ok]
    rfl

end HandleRead

end Firestr.Network
