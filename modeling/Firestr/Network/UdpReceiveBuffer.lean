import Firestr.Library.BitSet
import Firestr.Library.Runs
import Firestr.Network.UdpReceiver

/-! The buffer of a working message under chunks of any peer. Every copy ends inside
the buffer, but a last chunk longer than a full one makes the buffer grow. -/

set_option autoImplicit false

namespace Firestr.Network

open Firestr.Util Firestr.Library.BitSet Firestr.Library.Runs

/-- A chunk of a message that comes in a datagram of the size that is read. -/
def Received (c : MessageChunk) : Prop :=
  c.type ≠ .ack ∧ ∃ datagram, datagram.length ≤ maxUdpBuffSize ∧ Arrives datagram c

/-- One call of `insert_chunk` with a received chunk. -/
def Inserts (w : WorkingMessages) (c : MessageChunk) (next : WorkingMessages) : Prop :=
  Received c ∧ ∃ inserted message, insertChunk c w = .ok (inserted, next, message)

def WorkingMessage.buffer (wm : WorkingMessage) (c : MessageChunk) : Bytes :=
  if c.chunk.toNat = wm.proto.totalChunks.toNat - 1 then
    resize wm.data (subSize wm.data.length (subSize udpChunkSize c.data.length)) 0
  else wm.data

/-- If the chunk is copied, the copy ends inside the buffer. -/
def CopiesInside (w : WorkingMessages) (c : MessageChunk) : Prop :=
  (entryFor c w).takes c = true →
    c.chunk.toNat * udpChunkSize + c.data.length ≤ ((entryFor c w).buffer c).length

/-- If the chunk is taken, the buffer of its entry does not grow. -/
def Shrinks (w : WorkingMessages) (c : MessageChunk) : Prop :=
  (entryFor c w).takes c = true →
    ((entryFor c w).filled c).data.length ≤ (entryFor c w).data.length

/-- The chunk is not a last chunk that is taken and longer than a full one. -/
def Fits (w : WorkingMessages) (c : MessageChunk) : Prop :=
  ¬((entryFor c w).takes c = true ∧
    c.chunk.toNat = (entryFor c w).proto.totalChunks.toNat - 1 ∧ udpChunkSize < c.data.length)

/-- The buffer holds at most the full chunks of the message. -/
def WorkingMessage.Held (wm : WorkingMessage) : Prop :=
  wm.data.length ≤ wm.proto.totalChunks.toNat * udpChunkSize

/-- What the buffer of an entry is: all full chunks until the last chunk has come, and
then as much as that chunk was long at its place. -/
structure WorkingMessage.Sized (wm : WorkingMessage) : Prop where
  counted : 0 < wm.proto.totalChunks.toNat
  setLength : wm.set.length = wm.proto.totalChunks.toNat
  start : (wm.proto.totalChunks.toNat - 1) * udpChunkSize ≤ wm.data.length
  whole : wm.set.getD (wm.proto.totalChunks.toNat - 1) false = false →
    wm.data.length = wm.proto.totalChunks.toNat * udpChunkSize

section Entry

variable {wm : WorkingMessage} {c : MessageChunk} {w : WorkingMessages}

theorem Received.length_le (received : Received c) : c.data.length ≤ maxUdpBuffSize := by
  obtain ⟨-, datagram, small, arrives⟩ := received
  rcases decodeUdpWire_total arrives.long small with empty | ⟨sequence, total, chunk, type, -, decoded⟩
  · have invalid := Except.ok.inj (arrives.decoded.symm.trans empty)
    have valid := arrives.valid
    rw [invalid] at valid
    cases valid
  · rw [Except.ok.inj (arrives.decoded.symm.trans decoded), List.length_drop]
    exact le_trans (Nat.sub_le ..) small

private theorem subSize_subSize {size full len : Nat} (enough : full ≤ size)
    (small : size + len < 2 ^ 64) : subSize size (subSize full len) = size - full + len := by
  unfold subSize
  omega

theorem entryFor_sized (some? : c.totalChunks.toNat ≠ 0)
    (sized : ∀ wm, w c.sequence = some wm → wm.Sized) : (entryFor c w).Sized := by
  cases found : w c.sequence with
  | none =>
      have fresh : entryFor c w =
          { proto := { c with data := [] }
            data := List.replicate (c.totalChunks.toNat * udpChunkSize) 0
            set := List.replicate c.totalChunks.toNat false } := by
        simp [entryFor, found]
      rw [fresh]
      refine ⟨Nat.pos_of_ne_zero some?, List.length_replicate, ?_, fun _ => List.length_replicate⟩
      rw [List.length_replicate]
      exact Nat.mul_le_mul_right _ (Nat.sub_le ..)
  | some wm =>
      have known := sized wm found
      have same : entryFor c w = wm := by
        rw [entryFor, found, Option.getD_some, if_neg (Nat.ne_of_gt known.counted)]
      rw [same]
      exact known

/-- The last chunk makes the buffer end where it ends, and any other leaves it as it is. -/
private theorem length_buffer (sized : wm.Sized) (taken : wm.takes c = true)
    (short : c.data.length ≤ maxUdpBuffSize) :
    (c.chunk.toNat = wm.proto.totalChunks.toNat - 1 →
      (wm.buffer c).length = c.chunk.toNat * udpChunkSize + c.data.length ∧
        wm.data.length = (c.chunk.toNat + 1) * udpChunkSize) ∧
    (c.chunk.toNat ≠ wm.proto.totalChunks.toNat - 1 →
      wm.buffer c = wm.data ∧ c.data.length = udpChunkSize) := by
  obtain ⟨inside, -, unset, shape⟩ := takes_iff.mp taken
  have bound := wm.proto.totalChunks.toNat_lt
  have counted := sized.counted
  rw [maxUdpBuffSize_eq] at short
  unfold WorkingMessage.buffer
  constructor
  · intro last
    have whole := sized.whole (by rw [← last]; exact Bool.not_eq_true _ |>.mp unset)
    rw [if_pos last, length_resize]
    rw [udpChunkSize_eq] at whole ⊢
    rw [subSize_subSize (by omega) (by omega)]
    omega
  · intro more
    exact ⟨if_neg more, shape.resolve_left more⟩

theorem copies_inside (sized : wm.Sized) (taken : wm.takes c = true)
    (short : c.data.length ≤ maxUdpBuffSize) :
    c.chunk.toNat * udpChunkSize + c.data.length ≤ (wm.buffer c).length := by
  obtain ⟨last, more⟩ := length_buffer sized taken short
  by_cases final : c.chunk.toNat = wm.proto.totalChunks.toNat - 1
  · rw [(last final).1]
  · obtain ⟨same, full⟩ := more final
    have inside := (takes_iff.mp taken).1
    have start := sized.start
    have next : c.chunk.toNat + 1 ≤ wm.proto.totalChunks.toNat - 1 := by omega
    rw [same, full, ← Nat.succ_mul]
    exact le_trans (Nat.mul_le_mul_right _ next) start

theorem length_filled (sized : wm.Sized) (taken : wm.takes c = true)
    (short : c.data.length ≤ maxUdpBuffSize) :
    (wm.filled c).data.length = (wm.buffer c).length :=
  length_copyAt (copies_inside sized taken short)

/-- A chunk that is taken makes the buffer grow exactly if it is last and too long. -/
theorem filled_le_iff (sized : wm.Sized) (taken : wm.takes c = true)
    (short : c.data.length ≤ maxUdpBuffSize) :
    (wm.filled c).data.length ≤ wm.data.length ↔
      ¬(c.chunk.toNat = wm.proto.totalChunks.toNat - 1 ∧ udpChunkSize < c.data.length) := by
  obtain ⟨last, more⟩ := length_buffer sized taken short
  rw [length_filled sized taken short]
  by_cases final : c.chunk.toNat = wm.proto.totalChunks.toNat - 1
  · obtain ⟨after, before⟩ := last final
    rw [after, before, not_and, Nat.succ_mul]
    constructor
    · intro shorter _
      omega
    · intro fits
      have full := fits final
      omega
  · rw [(more final).1]
    exact iff_of_true le_rfl fun both => final both.1

theorem WorkingMessage.Sized.filled (sized : wm.Sized) (taken : wm.takes c = true)
    (short : c.data.length ≤ maxUdpBuffSize) : (wm.filled c).Sized where
  counted := sized.counted
  setLength := by
    rw [WorkingMessage.filled, List.length_set]
    exact sized.setLength
  start := by
    obtain ⟨last, more⟩ := length_buffer sized taken short
    have start := sized.start
    change (wm.proto.totalChunks.toNat - 1) * udpChunkSize ≤ (wm.filled c).data.length
    rw [length_filled sized taken short]
    by_cases final : c.chunk.toNat = wm.proto.totalChunks.toNat - 1
    · rw [(last final).1, final]
      exact Nat.le_add_right ..
    · rw [(more final).1]
      exact start
  whole clear := by
    have inside : c.chunk.toNat < wm.set.length := by
      rw [sized.setLength]
      exact (takes_iff.mp taken).1
    have bit := getD_set inside (wm.proto.totalChunks.toNat - 1)
    change (wm.set.set c.chunk.toNat true).getD (wm.proto.totalChunks.toNat - 1) false = false
      at clear
    rw [clear, eq_comm, Bool.or_eq_false_iff, decide_eq_false_iff_not] at bit
    change (wm.filled c).data.length = wm.proto.totalChunks.toNat * udpChunkSize
    rw [length_filled sized taken short,
      ((length_buffer sized taken short).2 bit.1).1]
    exact sized.whole bit.2

end Entry

section Run

variable {c : MessageChunk} {w next : WorkingMessages}

private theorem Inserts.entries {property : WorkingMessage → Prop} (inserts : Inserts w c next)
    (before : ∀ sequence wm, w sequence = some wm → property wm)
    (entry : c.totalChunks.toNat ≠ 0 → property (entryFor c w))
    (filled : c.totalChunks.toNat ≠ 0 → (entryFor c w).takes c = true →
      property ((entryFor c w).filled c)) :
    ∀ sequence wm, next sequence = some wm → property wm := by
  obtain ⟨received, inserted, message, success⟩ := inserts
  rw [insertChunk_eq received.1, Except.ok.injEq] at success
  intro sequence wm found
  by_cases empty : c.totalChunks.toNat = 0
  · rw [insertion, if_pos empty] at success
    cases success
    exact before sequence wm found
  · rw [insertion, if_neg empty] at success
    by_cases taken : (entryFor c w).takes c = true
    · rw [if_pos taken] at success
      by_cases complete : ((entryFor c w).filled c).complete = true
      · rw [if_pos complete] at success
        cases success
        exact before sequence wm ((WorkingMessages.erase_eq_some ..).mp found).2
      · rw [if_neg complete] at success
        cases success
        rcases (WorkingMessages.put_eq_some ..).mp found with ⟨-, rfl⟩ | ⟨-, other⟩
        · exact filled empty taken
        · exact before sequence wm other
    · rw [if_neg taken] at success
      cases success
      rcases (WorkingMessages.put_eq_some ..).mp found with ⟨-, rfl⟩ | ⟨-, other⟩
      · exact entry empty
      · exact before sequence wm other

def Sizes (w : WorkingMessages) : Prop :=
  ∀ sequence wm, w sequence = some wm → WorkingMessage.Sized wm

theorem Sizes.step (sizes : Sizes w) (inserts : Inserts w c next) : Sizes next := by
  have entry := fun some? => @entryFor_sized c w some? (sizes c.sequence)
  exact inserts.entries sizes entry fun some? taken =>
    (entry some?).filled taken inserts.1.length_le

/-- A fresh buffer holds the full chunks, and a chunk that fits makes no buffer grow. -/
theorem held_step (sizes : Sizes w) (held : ∀ sequence wm, w sequence = some wm → wm.Held)
    (inserts : Inserts w c next) (fits : Fits w c) :
    ∀ sequence wm, next sequence = some wm → wm.Held := by
  have sized := fun some? => @entryFor_sized c w some? (sizes c.sequence)
  have entry : c.totalChunks.toNat ≠ 0 → (entryFor c w).Held := by
    intro some?
    cases found : w c.sequence with
    | none =>
        have fresh : (entryFor c w).data.length = c.totalChunks.toNat * udpChunkSize ∧
            (entryFor c w).proto.totalChunks = c.totalChunks := by
          simp [entryFor, found]
        unfold WorkingMessage.Held
        rw [fresh.1, fresh.2]
    | some wm =>
        have same : entryFor c w = wm := by
          rw [entryFor, found, Option.getD_some,
            if_neg (Nat.ne_of_gt (sizes c.sequence wm found).counted)]
        rw [same]
        exact held c.sequence wm found
  refine inserts.entries held entry fun some? taken => ?_
  have shorter := (filled_le_iff (sized some?) taken inserts.1.length_le).mpr
    fun both => fits ⟨taken, both⟩
  exact shorter.trans (entry some?)

variable {chunks : List MessageChunk}

theorem sizes_of_run (run : Run (fun w => w = fun _ => none) Inserts chunks w) : Sizes w := by
  refine run.invariant (fun _ w => Sizes w) ?_ ?_
  · rintro _ rfl sequence wm found
    cases found
  · intro chunks w c next _ sizes inserts
    exact sizes.step inserts

private theorem takes_counted (taken : (entryFor c w).takes c = true) :
    c.totalChunks.toNat ≠ 0 := by
  obtain ⟨inside, same, -⟩ := takes_iff.mp taken
  rw [← same] at inside
  omega

theorem copiesInside_of_sizes (sizes : Sizes w) (received : Received c) : CopiesInside w c :=
  fun taken => copies_inside (entryFor_sized (takes_counted taken) (sizes c.sequence)) taken
    received.length_le

theorem shrinks_iff_fits (sizes : Sizes w) (received : Received c) :
    Shrinks w c ↔ Fits w c := by
  unfold Shrinks Fits
  rw [not_and]
  refine forall_congr' fun taken => ?_
  exact filled_le_iff (entryFor_sized (takes_counted taken) (sizes c.sequence)) taken
    received.length_le

end Run

/-- After any received chunks, the next one is copied inside the buffer, and the buffer
does not grow exactly if the chunk fits. While all chunks fit, no buffer holds more than
the full chunks of its message. -/
theorem receive_buffer {chunks : List MessageChunk} {w : WorkingMessages}
    (run : Run (fun w => w = fun _ => none) Inserts chunks w) :
    (∀ c, Received c → CopiesInside w c ∧ (Shrinks w c ↔ Fits w c)) ∧
    (Run (fun w => w = fun _ => none) (fun w c next => Inserts w c next ∧ Fits w c) chunks w →
      ∀ sequence wm, w sequence = some wm →
        wm.data.length ≤ wm.proto.totalChunks.toNat * udpChunkSize) := by
  have sizes := sizes_of_run run
  refine ⟨fun c received =>
    ⟨copiesInside_of_sizes sizes received, shrinks_iff_fits sizes received⟩, fun fitting => ?_⟩
  have kept : Sizes w ∧ ∀ sequence wm, w sequence = some wm → wm.Held := by
    refine fitting.invariant
      (fun _ w => Sizes w ∧ ∀ sequence wm, w sequence = some wm → wm.Held) ?_ ?_
    · rintro _ rfl
      exact ⟨fun sequence wm found => (by cases found), fun sequence wm found => (by cases found)⟩
    · intro chunks w c next _ before step
      exact ⟨before.1.step step.1, held_step before.1 before.2 step.1 step.2⟩
  exact kept.2

/-- The chunk number 1 of 2 with one byte more than a full chunk. -/
def longLastSent : MessageChunk :=
  { type := .msg
    sequence := 7
    totalChunks := 2
    chunk := 1
    writeData := List.replicate 500 0 }

def longLastChunk : MessageChunk := received longLastSent

theorem longLastChunk_received : Received longLastChunk := by
  have length : longLastSent.writeData.length = 500 := List.length_replicate
  have small : headerSize + longLastSent.writeData.length ≤ maxUdpBuffSize := by
    rw [length]
    decide
  refine ⟨fun ack => (by cases ack), wire longLastSent, ?_, arrives_wire small⟩
  rw [length_wire, length]
  decide

/-- A last chunk that is too long leaves a buffer of more than the full chunks. -/
theorem long_last_chunk_grows : Received longLastChunk ∧
    ∃ next wm, insertChunk longLastChunk (fun _ => none) = .ok (false, next, []) ∧
      next 7 = some wm ∧ wm.data.length = 2 * 499 + 1 := by
  have waits : (insertion longLastChunk fun _ => none).1 = false := by decide +kernel
  have nothing : (insertion longLastChunk fun _ => none).2.2 = [] := by decide +kernel
  have grown : ((insertion longLastChunk fun _ => none).2.1 7).map (fun wm => wm.data.length) =
      some 999 := by decide +kernel
  obtain ⟨wm, found, length⟩ := Option.map_eq_some_iff.mp grown
  refine ⟨longLastChunk_received, _, wm, ?_, found, length⟩
  rw [insertChunk_eq longLastChunk_received.1]
  exact congrArg Except.ok (Prod.ext waits (Prod.ext rfl nothing))

section Between

/-- The chunks of a message of 1000 bytes. -/
def thousandSent (n : UInt16) : MessageChunk :=
  { type := .msg
    sequence := 7
    totalChunks := 3
    chunk := n
    writeData := List.replicate (if n = 2 then 2 else 499) 33 }

def thousandChunk (n : UInt16) : MessageChunk := received (thousandSent n)

/-- The working set after the last chunk, and after the first one. -/
def lastTaken : WorkingMessages := (insertion (thousandChunk 2) fun _ => none).2.1

def firstTaken : WorkingMessages := (insertion (thousandChunk 0) lastTaken).2.1

theorem thousandChunk_received (n : UInt16) : Received (thousandChunk n) := by
  have size : (thousandSent n).writeData.length ≤ 499 := by
    rw [thousandSent, List.length_replicate]
    split <;> decide
  have small : headerSize + (thousandSent n).writeData.length ≤ maxUdpBuffSize := by
    rw [headerSize_eq, maxUdpBuffSize_eq]
    omega
  refine ⟨nofun, wire (thousandSent n), ?_, arrives_wire small⟩
  rw [length_wire]
  rw [headerSize_eq] at small
  exact small

private theorem thousandChunk_inserts (n : UInt16) (w : WorkingMessages) :
    Inserts w (thousandChunk n) (insertion (thousandChunk n) w).2.1 :=
  ⟨thousandChunk_received n, _, _, insertChunk_eq (thousandChunk_received n).1⟩

theorem firstTaken_run : Run (fun w => w = fun _ => none)
    (fun w c next => Inserts w c next ∧ Fits w c) [thousandChunk 2, thousandChunk 0]
    firstTaken := by
  have last : Fits (fun _ => none) (thousandChunk 2) := by
    unfold Fits
    decide +kernel
  have first : Fits lastTaken (thousandChunk 0) := by
    unfold Fits
    decide +kernel
  have taken : Run (fun w => w = fun _ => none) (fun w c next => Inserts w c next ∧ Fits w c)
      [thousandChunk 2] lastTaken := .single rfl ⟨thousandChunk_inserts 2 _, last⟩
  exact taken.step ⟨thousandChunk_inserts 0 _, first⟩

/-- The buffer has shrunk with the last chunk, and the middle chunk is copied inside it. -/
theorem receive_buffer_between :
    CopiesInside firstTaken (thousandChunk 1) ∧
      (Shrinks firstTaken (thousandChunk 1) ↔ Fits firstTaken (thousandChunk 1)) ∧
      ∃ wm, firstTaken 7 = some wm ∧ wm.data.length = 1000 ∧
        wm.data.length ≤ wm.proto.totalChunks.toNat * udpChunkSize := by
  obtain ⟨copied, held⟩ := receive_buffer (firstTaken_run.weaken fun _ _ _ step => step.1)
  have size : (firstTaken 7).map (fun wm => wm.data.length) = some 1000 := by decide +kernel
  obtain ⟨wm, found, length⟩ := Option.map_eq_some_iff.mp size
  exact ⟨(copied _ (thousandChunk_received 1)).1, (copied _ (thousandChunk_received 1)).2,
    wm, found, length, held firstTaken_run 7 wm found⟩

end Between

end Firestr.Network
