import Firestr.Library.Outcomes
import Firestr.Network.UdpChunkProperties

/-! The sizes of messages against the 16-bit chunk total. `send` accepts up to 2^16
chunks, and the total counts one less. -/

set_option autoImplicit false

namespace Firestr.Network

open Firestr.Util Firestr.Library.Blocks Firestr.Library.Outcomes

/-- `total_chunks` gives `total`, which counts the chunks of the message, and the pieces
that `nth_chunk` cuts are not empty, fit a packet and make up the message. -/
structure Cuts (data : Bytes) (total : UInt16) : Prop where
  success : totalChunks data.length = .ok total
  counts : total.toNat = (data.length + 499 - 1) / 499
  pieces : ∀ proto : MessageChunk, proto.totalChunks = total →
    ∃ chunks, (List.range total.toNat).mapM (fun n => nthChunk n proto data) = .ok chunks ∧
      (∀ c ∈ chunks, 0 < c.writeData.length ∧ c.writeData.length ≤ 499) ∧
      chunks.flatMap (fun c => c.writeData) = data

section Sizes

variable {data : Bytes}

theorem cuts_of_counted (nonempty : 0 < data.length) (counted : data.length ≤ maxCountedSize) :
    Cuts data (UInt16.ofNat (chunkCount data.length)) where
  success := totalChunks_eq nonempty counted
  counts := UInt16.toNat_ofNat_of_lt' (chunkCount_lt counted)
  pieces proto same := by
    have counts : proto.totalChunks.toNat = chunkCount data.length := by
      rw [same]
      exact UInt16.toNat_ofNat_of_lt' (chunkCount_lt counted)
    rw [← same, counts]
    refine ⟨(List.range (chunkCount data.length)).map fun n => chunkOf n proto data,
      mapM_ok fun n member => ?_, fun c member => ?_, ?_⟩
    · refine nthChunk_eq counts ?_
      rw [counts]
      exact List.mem_range.mp member
    · obtain ⟨n, ranged, rfl⟩ := List.mem_map.mp member
      have start := (lt_blockCount_iff udpChunkSize_pos).mp (List.mem_range.mp ranged)
      have size : (chunkOf n proto data).writeData.length =
          min udpChunkSize (data.length - n * udpChunkSize) := length_block
      rw [size]
      rw [udpChunkSize_eq] at start ⊢
      omega
    · rw [List.flatMap_map]
      exact flatMap_block udpChunkSize_pos

/-- What `send` accepts is counted and cut exactly if it is no more than 65535 chunks. -/
theorem cuts_iff {m : EndpointMessage} (accepted : UdpConnection.accepts m = true) :
    (∃ total, Cuts m.data total) ↔ m.data.length ≤ 65535 * 499 := by
  rw [UdpConnection.accepts, Bool.and_eq_true, decide_eq_true_iff] at accepted
  constructor
  · rintro ⟨total, cuts⟩
    exact (counted_of_totalChunks accepted.2 cuts.success).2
  · intro counted
    have nonempty : 0 < m.data.length := by
      rw [List.length_pos_iff]
      rintro empty
      rw [empty] at accepted
      cases accepted.1
    exact ⟨_, cuts_of_counted nonempty counted⟩

/-- A message of one byte more than a full chunk. -/
def longerMessage : EndpointMessage :=
  { ep := ⟨udp, "10.0.0.1", 6060⟩, data := List.replicate 500 33, robust := true }

theorem cuts_longer : Cuts longerMessage.data 2 := by
  have length : longerMessage.data.length = 500 := List.length_replicate
  obtain ⟨total, cuts⟩ := (@cuts_iff longerMessage (by decide +kernel)).mpr (by rw [length]; decide)
  have counts := cuts.counts
  rw [length] at counts
  have two : total = 2 := UInt16.toNat_inj.mp counts
  rw [two] at cuts
  exact cuts

/-- A message of 2^16 full chunks is accepted, and its total wraps to zero. -/
theorem full_size_wraps : ∃ m : EndpointMessage, UdpConnection.accepts m = true ∧
    m.data.length = 65536 * 499 ∧ totalChunks m.data.length = .error (.raised .ensure "r > 0") := by
  have size : (List.replicate (65536 * 499) (0 : UInt8)).length = 65536 * 499 :=
    List.length_replicate
  refine ⟨{ ep := ⟨udp, "10.0.0.1", 6060⟩, data := List.replicate (65536 * 499) 0,
            robust := true }, ?_, size, ?_⟩
  · rw [UdpConnection.accepts, size, Bool.and_eq_true]
    refine ⟨?_, by decide⟩
    rw [Bool.not_eq_true', List.isEmpty_eq_false_iff, ← List.length_pos_iff, size]
    decide
  · rw [size]
    decide

end Sizes

end Firestr.Network
