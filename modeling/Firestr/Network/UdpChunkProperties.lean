import Firestr.Library.Blocks
import Firestr.Network.UdpConnection
import Firestr.Network.UdpWireProperties

/-! Cutting a message into chunks. The prototype of a message counts its
blocks, and each chunk below that count is the block of its number. -/

set_option autoImplicit false

namespace Firestr.Network

open Firestr.Util Firestr.Library.Blocks

/-- The sizes the 16-bit chunk total can count, in bytes. -/
def maxCountedSize : Nat := 65535 * udpChunkSize

/-- How many chunks a message of some size is cut into. -/
abbrev chunkCount (dataSize : Nat) : Nat := blockCount udpChunkSize dataSize

theorem udpChunkSize_pos : 0 < udpChunkSize := by simp

theorem chunkCount_lt {dataSize : Nat} (counted : dataSize ≤ maxCountedSize) :
    chunkCount dataSize < 2 ^ 16 :=
  Nat.lt_succ_of_le (blockCount_le udpChunkSize_pos counted)

private theorem roundedUp {dataSize : Nat} (counted : dataSize ≤ maxCountedSize) :
    (if dataSize % udpChunkSize ≠ 0 then UInt16.ofNat (dataSize / udpChunkSize) + 1
      else UInt16.ofNat (dataSize / udpChunkSize)) = UInt16.ofNat (chunkCount dataSize) := by
  rw [maxCountedSize, udpChunkSize_eq] at counted
  rw [chunkCount, blockCount, udpChunkSize_eq]
  by_cases exact : dataSize % 499 = 0
  · rw [if_neg (by omega)]
    congr 1
    omega
  · rw [if_pos exact, show (dataSize + 499 - 1) / 499 = dataSize / 499 + 1 by omega,
      UInt16.ofNat_add]
    rfl

/-- A message the 16-bit total can count gets the total of its blocks. -/
theorem totalChunks_eq {dataSize : Nat} (nonempty : 0 < dataSize)
    (counted : dataSize ≤ maxCountedSize) :
    totalChunks dataSize = .ok (UInt16.ofNat (chunkCount dataSize)) := by
  have some? : 0 < (UInt16.ofNat (chunkCount dataSize)).toNat := by
    rw [UInt16.toNat_ofNat_of_lt' (chunkCount_lt counted)]
    exact blockCount_pos udpChunkSize_pos nonempty
  simp only [totalChunks, decide_eq_true (show dataSize > 0 from nonempty), require_true, ok_bind,
    roundedUp counted, decide_eq_true (show _ > 0 from some?), ensure_true, pure_ok]

/-- What `total_chunks` accepts of the sizes that `send` does can be counted: a
total of 65536 comes out as zero. -/
theorem counted_of_totalChunks {dataSize : Nat} {total : UInt16}
    (small : dataSize ≤ maxMessageSize) (success : totalChunks dataSize = .ok total) :
    0 < dataSize ∧ dataSize ≤ maxCountedSize := by
  obtain ⟨_, required, rest⟩ := bind_ok success
  have nonempty : 0 < dataSize := of_decide_eq_true (require_ok_iff.mp required)
  refine ⟨nonempty, ?_⟩
  by_contra uncounted
  rw [maxCountedSize, udpChunkSize_eq] at uncounted
  rw [maxMessageSize, maxChunks, udpChunkSize_eq] at small
  have zero : (if dataSize % udpChunkSize ≠ 0 then UInt16.ofNat (dataSize / udpChunkSize) + 1
      else UInt16.ofNat (dataSize / udpChunkSize)) = 0 := by
    rw [udpChunkSize_eq]
    by_cases exact : dataSize % 499 = 0
    · rw [if_neg (not_not.mpr exact), show dataSize / 499 = 65536 by omega]
      rfl
    · rw [if_pos exact, show dataSize / 499 = 65535 by omega]
      rfl
  obtain ⟨_, ensured, -⟩ := bind_ok rest
  have positive := of_decide_eq_true (ensure_ok_iff.mp ensured)
  rw [zero] at positive
  exact absurd positive (by decide)

/-- The prototype of a message with a given sequence number. -/
def prototypeOf (sequence : UInt64) (m : EndpointMessage) : MessageChunk :=
  { valid := true
    type := if m.robust then .msg else .qmsg
    host := m.ep.address
    port := m.ep.port
    sequence := sequence
    totalChunks := UInt16.ofNat (chunkCount m.data.length)
    chunk := 0 }

theorem createPrototype_eq (sequence : UInt64) {m : EndpointMessage}
    (nonempty : 0 < m.data.length) (counted : m.data.length ≤ maxCountedSize) :
    createPrototype sequence m = .ok (prototypeOf sequence m) := by
  rw [createPrototype, totalChunks_eq nonempty counted, ok_bind]
  rfl

/-- The chunk with number `n` of a message. -/
def chunkOf (n : Nat) (proto : MessageChunk) (data : Bytes) : MessageChunk :=
  { proto with chunk := UInt16.ofNat n, writeData := block udpChunkSize data n }

section ChunkOf

variable (n : Nat) (proto : MessageChunk) (data : Bytes)

@[simp] theorem chunkOf_sequence : (chunkOf n proto data).sequence = proto.sequence := rfl
@[simp] theorem chunkOf_type : (chunkOf n proto data).type = proto.type := rfl
@[simp] theorem chunkOf_resent : (chunkOf n proto data).resent = proto.resent := rfl

theorem length_chunkOf_writeData : (chunkOf n proto data).writeData.length ≤ udpChunkSize :=
  length_block_le

end ChunkOf

/-- Below the total, `nth_chunk` violates no contract and cuts the block. -/
theorem nthChunk_eq {n : Nat} {proto : MessageChunk} {data : Bytes}
    (counts : proto.totalChunks.toNat = chunkCount data.length)
    (inside : n < proto.totalChunks.toNat) :
    nthChunk n proto data = .ok (chunkOf n proto data) := by
  have start : n * udpChunkSize < data.length :=
    (lt_blockCount_iff udpChunkSize_pos).mp (lt_of_lt_of_eq inside counts)
  have bounded : n < 2 ^ 16 := lt_trans inside proto.totalChunks.toNat_lt
  have below : min data.length (n * udpChunkSize + udpChunkSize) < 2 ^ 64 := by
    rw [udpChunkSize_eq]
    omega
  have size : subSize (min data.length (n * udpChunkSize + udpChunkSize)) (n * udpChunkSize) =
      min udpChunkSize (data.length - n * udpChunkSize) := by
    rw [subSize_of_le (by omega) below]
    omega
  have positive : min udpChunkSize (data.length - n * udpChunkSize) > 0 := by
    rw [udpChunkSize_eq] at *
    omega
  have same : (UInt16.ofNat n).toNat = n := UInt16.toNat_ofNat_of_lt' bounded
  have cut : (data.drop (n * udpChunkSize)).take
      (min udpChunkSize (data.length - n * udpChunkSize)) = block udpChunkSize data n := by
    rw [block, ← List.length_drop, ← List.take_take, List.take_length]
  simp only [nthChunk, decide_eq_true inside, require_true, ok_bind, size,
    decide_eq_true positive, check_true, same, beq_self_eq_true, ensure_true, pure_ok, cut]
  rfl

end Firestr.Network
