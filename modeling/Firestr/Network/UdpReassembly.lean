import Firestr.Library.BitSet
import Firestr.Network.UdpChunkProperties
import Firestr.Network.UdpReceiver

/-! Reassembly of one message. An entry that has only taken chunks of one
message holds the bytes of that message at the chunks it has, and the chunk
that completes it gives the message back. -/

set_option autoImplicit false

namespace Firestr.Network

open Firestr.Util Firestr.Library.Blocks Firestr.Library.BitSet

/-- The received chunk `c` is one of the chunks of a message with `data`. -/
structure Piece (data : Bytes) (c : MessageChunk) : Prop where
  counted : data.length ≤ maxCountedSize
  total : c.totalChunks.toNat = chunkCount data.length
  inside : c.chunk.toNat < chunkCount data.length
  bytes : c.data = block udpChunkSize data c.chunk.toNat

/-- An entry that has taken chunks of a message with `data`, and no others. -/
structure Assembled (data : Bytes) (wm : WorkingMessage) : Prop where
  total : wm.proto.totalChunks.toNat = chunkCount data.length
  setLength : wm.set.length = chunkCount data.length
  length : wm.data.length =
    if wm.set.getD (chunkCount data.length - 1) false = true then data.length
    else chunkCount data.length * udpChunkSize
  bytes : ∀ position < data.length, wm.set.getD (position / udpChunkSize) false = true →
    wm.data[position]? = data[position]?

section Assembled

variable {data : Bytes} {c : MessageChunk} {wm : WorkingMessage}

theorem Piece.nonempty (piece : Piece data c) : 0 < data.length := by
  have start := (lt_blockCount_iff udpChunkSize_pos).mp piece.inside
  omega

theorem Assembled.fresh (piece : Piece data c) (proto : MessageChunk)
    (same : proto.totalChunks = c.totalChunks) :
    Assembled data { proto := proto
                     data := List.replicate (c.totalChunks.toNat * udpChunkSize) 0
                     set := List.replicate c.totalChunks.toNat false } where
  total := by rw [same, piece.total]
  setLength := by rw [List.length_replicate, piece.total]
  length := by
    have clear : (List.replicate c.totalChunks.toNat false).getD
        (chunkCount data.length - 1) false = false := by
      rw [List.getD_eq_getElem?_getD, List.getElem?_replicate]
      split <;> rfl
    rw [clear, List.length_replicate, piece.total, if_neg Bool.false_ne_true]
  bytes position _ set := by
    rw [List.getD_eq_getElem?_getD, List.getElem?_replicate] at set
    split at set <;> cases set

private theorem Piece.bounds (piece : Piece data c) :
    c.chunk.toNat * udpChunkSize < data.length ∧
      c.data.length = min udpChunkSize (data.length - c.chunk.toNat * udpChunkSize) ∧
      (c.chunk.toNat + 1 = chunkCount data.length →
        data.length = c.chunk.toNat * udpChunkSize + c.data.length) ∧
      (c.chunk.toNat + 1 < chunkCount data.length → c.data.length = udpChunkSize) := by
  refine ⟨(lt_blockCount_iff udpChunkSize_pos).mp piece.inside, ?_, fun last => ?_, fun more => ?_⟩
  · rw [piece.bytes, length_block]
  · rw [piece.bytes, add_length_block_last udpChunkSize_pos last]
  · rw [piece.bytes, length_block_of_lt udpChunkSize_pos more]

private theorem resized (piece : Piece data c) (assembled : Assembled data wm)
    (clear : wm.set.getD c.chunk.toNat false = false) :
    ∃ room, (if c.chunk.toNat = wm.proto.totalChunks.toNat - 1 then
        resize wm.data (subSize wm.data.length (subSize udpChunkSize c.data.length)) 0
      else wm.data) = wm.data.take room ∧ room ≤ wm.data.length ∧
      (c.chunk.toNat + 1 = chunkCount data.length → room = data.length) ∧
      (c.chunk.toNat + 1 < chunkCount data.length → room = wm.data.length) := by
  obtain ⟨start, size, last, more⟩ := piece.bounds
  have counted := piece.counted
  have inside := piece.inside
  rw [maxCountedSize] at counted
  rw [udpChunkSize_eq] at counted start size last more
  by_cases final : c.chunk.toNat + 1 = chunkCount data.length
  · have whole : wm.data.length = chunkCount data.length * 499 := by
      have here : chunkCount data.length - 1 = c.chunk.toNat := by omega
      rw [assembled.length, here, clear, if_neg Bool.false_ne_true, udpChunkSize_eq]
    have ends := last final
    have extra : subSize udpChunkSize c.data.length = 499 - c.data.length := by
      rw [udpChunkSize_eq, subSize_of_le (by omega) (by omega)]
    have shrunk : subSize wm.data.length (499 - c.data.length) = data.length := by
      rw [subSize_of_le (by omega) (by omega)]
      omega
    refine ⟨data.length, ?_, by omega, fun _ => rfl, by omega⟩
    rw [if_pos (by rw [assembled.total]; omega), extra, shrunk, resize_of_le _ _ (by omega)]
  · refine ⟨wm.data.length, ?_, le_rfl, fun same => absurd same final, fun _ => rfl⟩
    rw [if_neg (by rw [assembled.total]; omega), List.take_length]

theorem Assembled.filled (assembled : Assembled data wm) (piece : Piece data c)
    (clear : wm.set.getD c.chunk.toNat false = false) : Assembled data (wm.filled c) := by
  obtain ⟨room, buffer, fits, cut, kept⟩ := resized piece assembled clear
  obtain ⟨start, size, last, more⟩ := piece.bounds
  have inside := piece.inside
  have slot : c.chunk.toNat < wm.set.length := by rw [assembled.setLength]; exact inside
  rw [udpChunkSize_eq] at start size last more
  have filled : (wm.filled c).data =
      copyAt (wm.data.take room) (c.chunk.toNat * udpChunkSize) c.data := by
    rw [WorkingMessage.filled, buffer]
  have taken : (wm.data.take room).length = room := by
    rw [List.length_take]
    omega
  have lastStart : (chunkCount data.length - 1) * 499 < data.length :=
    (lt_blockCount_iff udpChunkSize_pos).mp (show _ < chunkCount data.length by omega)
  have enough : data.length ≤ chunkCount data.length * 499 :=
    length_le_blockCount_mul udpChunkSize_pos
  -- The buffer ends with the message, or at the end of its last chunk.
  have long : data.length ≤ room := by
    by_cases final : c.chunk.toNat + 1 = chunkCount data.length
    · exact (cut final).ge
    · rw [kept (by omega), assembled.length, udpChunkSize_eq]
      split
      · exact le_rfl
      · exact enough
  have below : c.chunk.toNat * udpChunkSize + c.data.length ≤ (wm.data.take room).length := by
    rw [taken, udpChunkSize_eq]
    by_cases final : c.chunk.toNat + 1 = chunkCount data.length
    · exact (last final) ▸ long
    · rw [more (by omega)]
      omega
  have bit : ∀ index, (wm.filled c).set.getD index false =
      (decide (c.chunk.toNat = index) || wm.set.getD index false) := getD_set slot
  refine ⟨assembled.total, ?_, ?_, ?_⟩
  · rw [WorkingMessage.filled, List.length_set, assembled.setLength]
  · rw [filled, length_copyAt below, taken, bit]
    by_cases final : c.chunk.toNat + 1 = chunkCount data.length
    · rw [decide_eq_true (show c.chunk.toNat = chunkCount data.length - 1 by omega), Bool.true_or,
        if_pos rfl, cut final]
    · rw [decide_eq_false (show ¬ c.chunk.toNat = chunkCount data.length - 1 by omega),
        Bool.false_or, kept (by omega), assembled.length]
  · intro position bounded set
    rw [filled, getElem?_copyAt below]
    by_cases here : c.chunk.toNat = position / udpChunkSize
    · rw [udpChunkSize_eq] at here
      have window : c.chunk.toNat * 499 ≤ position ∧
          position < c.chunk.toNat * 499 + c.data.length := by omega
      rw [udpChunkSize_eq, if_pos window, piece.bytes, getElem?_block (by rw [udpChunkSize_eq]; omega),
        udpChunkSize_eq, Nat.add_sub_cancel' window.1]
    · rw [bit, decide_eq_false here, Bool.false_or] at set
      have outside : ¬ (c.chunk.toNat * udpChunkSize ≤ position ∧
          position < c.chunk.toNat * udpChunkSize + c.data.length) := by
        rw [udpChunkSize_eq] at here ⊢
        omega
      rw [if_neg outside, List.getElem?_take, if_pos (by omega)]
      exact assembled.bytes position bounded set

theorem Assembled.complete (assembled : Assembled data wm) (counted : 0 < data.length)
    (complete : wm.complete = true) : wm.data = data := by
  have count : wm.set.count true = wm.set.length := by
    rw [assembled.setLength, ← assembled.total]
    exact of_decide_eq_true complete
  have all := count_eq_length_iff.mp count
  rw [assembled.setLength] at all
  have positive : 0 < chunkCount data.length := blockCount_pos udpChunkSize_pos counted
  have length : wm.data.length = data.length := by
    rw [assembled.length, if_pos (all _ (by omega))]
  apply List.ext_getElem?
  intro position
  by_cases inside : position < data.length
  · exact assembled.bytes position inside (all _ (div_lt_blockCount udpChunkSize_pos inside))
  · rw [List.getElem?_eq_none (by omega), List.getElem?_eq_none (by omega)]

end Assembled

/-- An entry between two chunks: assembled, and not complete. -/
structure Gathering (data : Bytes) (wm : WorkingMessage) : Prop extends Assembled data wm where
  incomplete : wm.complete = false

/-- Whether the entry under a sequence number has a chunk. -/
def entryBit (w : WorkingMessages) (sequence : UInt64) (chunk : Nat) : Bool :=
  (w sequence).elim false fun wm => wm.set.getD chunk false

section Insertion

variable {data : Bytes} {c : MessageChunk} {w : WorkingMessages}

private theorem entryFor_piece (piece : Piece data c)
    (entry : ∀ wm, w c.sequence = some wm → Gathering data wm) :
    Gathering data (entryFor c w) ∧
      ∀ chunk, (entryFor c w).set.getD chunk false = entryBit w c.sequence chunk := by
  cases found : w c.sequence with
  | none =>
      have fresh : entryFor c w =
          { proto := { c with data := [] }
            data := List.replicate (c.totalChunks.toNat * udpChunkSize) 0
            set := List.replicate c.totalChunks.toNat false } := by
        simp [entryFor, found]
      have some? : 0 < c.totalChunks.toNat := by
        rw [piece.total]
        exact blockCount_pos udpChunkSize_pos piece.nonempty
      rw [fresh]
      refine ⟨⟨.fresh piece _ rfl, ?_⟩, fun chunk => ?_⟩
      · simp only [WorkingMessage.complete, List.count_replicate, decide_eq_false_iff_not]
        simp
        omega
      rw [entryBit, found, Option.elim_none, List.getD_eq_getElem?_getD, List.getElem?_replicate]
      split <;> rfl
  | some wm =>
      have gathering := entry wm found
      have counted : ¬ wm.proto.totalChunks.toNat = 0 := by
        rw [gathering.total]
        exact Nat.ne_of_gt (blockCount_pos udpChunkSize_pos piece.nonempty)
      have same : entryFor c w = wm := by
        rw [entryFor, found, Option.getD_some, if_neg counted]
      rw [same]
      exact ⟨gathering, fun chunk => by rw [entryBit, found, Option.elim_some]⟩

/-- A piece either leaves an entry with one chunk more, or completes it and
gives the message. -/
theorem insertion_piece (piece : Piece data c)
    (entry : ∀ wm, w c.sequence = some wm → Gathering data wm) :
    (∃ wm, insertion c w = (false, w.put c.sequence wm, []) ∧ Gathering data wm ∧
      ∀ chunk, wm.set.getD chunk false =
        (decide (c.chunk.toNat = chunk) || entryBit w c.sequence chunk)) ∨
    (insertion c w = (true, w.erase c.sequence, data) ∧
      ∀ chunk < chunkCount data.length,
        c.chunk.toNat = chunk ∨ entryBit w c.sequence chunk = true) := by
  obtain ⟨gathering, bits⟩ := entryFor_piece piece entry
  have assembled := gathering.toAssembled
  have counted : ¬ c.totalChunks.toNat = 0 := by
    rw [piece.total]
    exact Nat.ne_of_gt (blockCount_pos udpChunkSize_pos piece.nonempty)
  by_cases known : (entryFor c w).set.getD c.chunk.toNat false = true
  · refine .inl ⟨entryFor c w, ?_, gathering, fun chunk => ?_⟩
    · have refused : ¬ (entryFor c w).takes c = true := fun taken => (takes_iff.mp taken).2.2.1 known
      rw [insertion, if_neg counted, if_neg refused]
    · rw [bits]
      by_cases here : c.chunk.toNat = chunk
      · rw [← here, ← bits, known, Bool.or_true]
      · rw [decide_eq_false here, Bool.false_or]
  · have clear := Bool.not_eq_true _ |>.mp known
    have taken : (entryFor c w).takes c = true := by
      refine takes_iff.mpr ⟨by rw [assembled.total]; exact piece.inside, ?_, known, ?_⟩
      · exact UInt16.toNat_inj.mp (by rw [assembled.total, piece.total])
      · have inside := piece.inside
        rw [assembled.total]
        by_cases final : c.chunk.toNat + 1 = chunkCount data.length
        · exact .inl (by omega)
        · exact .inr (piece.bounds.2.2.2 (by omega))
    have filled := assembled.filled piece clear
    have slot : c.chunk.toNat < (entryFor c w).set.length := by
      rw [assembled.setLength]
      exact piece.inside
    have filledBits : ∀ chunk, ((entryFor c w).filled c).set.getD chunk false =
        (decide (c.chunk.toNat = chunk) || entryBit w c.sequence chunk) := by
      intro chunk
      rw [← bits]
      exact getD_set slot chunk
    rw [insertion, if_neg counted, if_pos taken]
    by_cases complete : ((entryFor c w).filled c).complete = true
    · refine .inr ⟨?_, fun chunk inside => ?_⟩
      · rw [if_pos complete, filled.complete piece.nonempty complete]
      · have count : ((entryFor c w).filled c).set.count true =
            ((entryFor c w).filled c).set.length := by
          rw [filled.setLength, ← filled.total]
          exact of_decide_eq_true complete
        have bit := count_eq_length_iff.mp count chunk (by rw [filled.setLength]; exact inside)
        rw [filledBits, Bool.or_eq_true, decide_eq_true_eq] at bit
        exact bit
    · refine .inl ⟨_, by rw [if_neg complete], ⟨filled, Bool.not_eq_true _ |>.mp complete⟩,
        filledBits⟩

end Insertion

end Firestr.Network
