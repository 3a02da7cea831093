import Firestr.Network.UdpChunkProperties

/-! The sending half of a connection. A working message is described by the
message it was made from and by how far its chunks have been sent, and each
function that touches one is characterized once, on messages of that shape. -/

set_option autoImplicit false

namespace Firestr.Network

open Firestr.Util Firestr.Library.Blocks

/-- The sent bits of a message whose first `next` chunks have been sent. -/
def sentBits (next total : Nat) : List Bool :=
  List.replicate next true ++ List.replicate (total - next) false

section SentBits

variable {next total : Nat}

@[simp] theorem sentBits_zero : sentBits 0 total = List.replicate total false := by
  simp [sentBits]

theorem length_sentBits (bounded : next ≤ total) : (sentBits next total).length = total := by
  simp [sentBits]
  omega

theorem count_sentBits : (sentBits next total).count true = next := by
  simp [sentBits, List.count_append, List.count_replicate]

theorem getD_sentBits (chunk : Nat) :
    (sentBits next total).getD chunk false = decide (chunk < next) := by
  rw [sentBits, List.getD_eq_getElem?_getD]
  by_cases sent : chunk < next
  · rw [List.getElem?_append_left (by simpa using sent), List.getElem?_replicate, if_pos sent]
    simp [sent]
  · rw [List.getElem?_append_right (by simpa using sent), List.getElem?_replicate]
    split <;> simp [sent]

theorem set_sentBits (inside : next < total) :
    (sentBits next total).set next true = sentBits (next + 1) total := by
  obtain ⟨rest, split⟩ : ∃ rest, total - next = rest + 1 := ⟨total - next - 1, by omega⟩
  have shorter : total - (next + 1) = rest := by omega
  rw [sentBits, sentBits, split, shorter, List.set_append, List.replicate_succ,
    List.replicate_succ' (n := next), List.append_assoc]
  simp

end SentBits

variable {Address : Type} (ip : IpAddresses Address)

/-- What the callers of `send` promise of a message: it has data, its chunks
can be counted, and `udp_queue::resolve` gave its address. -/
structure Sendable (m : EndpointMessage) : Prop where
  nonempty : 0 < m.data.length
  counted : m.data.length ≤ maxCountedSize
  resolved : (ip.fromString m.ep.address).isSome

/-- The message with a sequence number, the first one added having number 1. -/
def numbered (log : List EndpointMessage) (sequence : UInt64) : Option EndpointMessage :=
  match sequence.toNat with
  | 0 => none
  | position + 1 => log[position]?

/-- A working message between two handlers, made from `m`: nothing of it is
queued, and exactly the chunks below `nextSend` have been sent. -/
structure Sending (m : EndpointMessage) (sequence : UInt64) (wm : WorkingMessage) : Prop where
  proto : wm.proto = prototypeOf sequence m
  data : wm.data = m.data
  queued : wm.queued = 0
  setLength : wm.set.length = chunkCount m.data.length
  sent : wm.sent = sentBits wm.nextSend (chunkCount m.data.length)
  bounded : wm.nextSend ≤ chunkCount m.data.length
  unfinished : m.robust = false → wm.nextSend < chunkCount m.data.length

/-- The window of a message is open for its next unsent chunk. -/
def WindowOpen (wm : WorkingMessage) : Prop :=
  wm.nextSend < wm.proto.totalChunks.toNat ∧
    (if wm.robust then wm.inFlight else 0) + wm.queued < maxFlight

instance (wm : WorkingMessage) : Decidable (WindowOpen wm) :=
  inferInstanceAs (Decidable (_ ∧ _))

theorem robust_eq {wm : WorkingMessage} {m : EndpointMessage} {sequence : UInt64}
    (proto : wm.proto = prototypeOf sequence m) : wm.robust = m.robust := by
  rw [WorkingMessage.robust, proto, prototypeOf]
  cases m.robust <;> rfl

section Prototype

variable {m : EndpointMessage} (sequence : UInt64)

theorem toNat_totalChunks_prototypeOf (counted : m.data.length ≤ maxCountedSize) :
    (prototypeOf sequence m).totalChunks.toNat = chunkCount m.data.length :=
  UInt16.toNat_ofNat_of_lt' (chunkCount_lt counted)

@[simp] theorem prototypeOf_sequence : (prototypeOf sequence m).sequence = sequence := rfl
@[simp] theorem prototypeOf_host : (prototypeOf sequence m).host = m.ep.address := rfl
@[simp] theorem prototypeOf_resent : (prototypeOf sequence m).resent = false := rfl

theorem prototypeOf_type_ne_ack : (prototypeOf sequence m).type ≠ .ack := by
  rw [prototypeOf]
  cases m.robust <;> simp

end Prototype

section Sending

variable {ip} {m : EndpointMessage} {sequence : UInt64} {wm : WorkingMessage}

theorem Sending.total (sending : Sending m sequence wm) (sendable : Sendable ip m) :
    wm.proto.totalChunks.toNat = chunkCount m.data.length := by
  rw [sending.proto, toNat_totalChunks_prototypeOf _ sendable.counted]

theorem Sending.total_pos (sending : Sending m sequence wm) (sendable : Sendable ip m) :
    0 < wm.proto.totalChunks.toNat := by
  rw [sending.total sendable]
  exact blockCount_pos udpChunkSize_pos sendable.nonempty

theorem Sending.nth (sending : Sending m sequence wm) (sendable : Sendable ip m) {n : Nat}
    (inside : n < wm.proto.totalChunks.toNat) :
    nthChunk n wm.proto wm.data = .ok (chunkOf n wm.proto wm.data) :=
  nthChunk_eq (by rw [sending.total sendable, sending.data]) inside

theorem getNextChunk_open (sending : Sending m sequence wm) (sendable : Sendable ip m)
    (window : WindowOpen wm) :
    getNextChunk wm = .ok (some (chunkOf wm.nextSend wm.proto wm.data,
      { wm with nextSend := wm.nextSend + 1, queued := wm.queued + 1 })) := by
  obtain ⟨unsent, room⟩ := window
  have positive : wm.proto.totalChunks.toNat > 0 := by omega
  rw [maxFlight] at room
  have below : ¬ (if wm.robust then wm.inFlight else 0) + wm.queued > maxFlight := by
    rw [maxFlight]
    omega
  have some? : ¬ (maxFlight - ((if wm.robust then wm.inFlight else 0) + wm.queued) = 0 ∨
      wm.nextSend ≥ wm.proto.totalChunks.toNat) := by
    rw [maxFlight]
    omega
  simp only [getNextChunk, decide_eq_true positive, require_true, ok_bind, if_neg below,
    decide_eq_true (Nat.zero_le _ : maxFlight - _ ≥ 0), check_true, if_neg some?,
    sending.nth sendable unsent, pure_ok]

theorem getNextChunk_closed (sending : Sending m sequence wm) (sendable : Sendable ip m)
    (window : ¬ WindowOpen wm) : getNextChunk wm = .ok none := by
  have positive : wm.proto.totalChunks.toNat > 0 := sending.total_pos sendable
  simp only [getNextChunk, decide_eq_true positive, require_true, ok_bind]
  by_cases full : (if wm.robust then wm.inFlight else 0) + wm.queued > maxFlight
  · rw [if_pos full, pure_ok]
  · have none? : maxFlight - ((if wm.robust then wm.inFlight else 0) + wm.queued) = 0 ∨
        wm.nextSend ≥ wm.proto.totalChunks.toNat := by
      by_contra some?
      refine window ⟨by omega, ?_⟩
      omega
    rw [if_neg full, decide_eq_true (Nat.zero_le _ : maxFlight - _ ≥ 0), check_true, ok_bind,
      if_pos none?, pure_ok]

end Sending

end Firestr.Network
