import Firestr.Library.ByteLanes
import Firestr.Network.UdpWire

/-! What the encoder writes and what the decoder reads. A datagram is exactly
the header of its chunk followed by the payload, and decoding it gives the
type, sequence number, total, chunk number and payload back. -/

set_option autoImplicit false

namespace Firestr.Network

open Firestr.Util Firestr.Library.ByteLanes

@[simp] theorem headerSize_eq : headerSize = 13 := rfl
@[simp] theorem messageBase_eq : messageBase = 13 := rfl
@[simp] theorem udpChunkSize_eq : udpChunkSize = 499 := rfl
@[simp] theorem maxUdpBuffSize_eq : maxUdpBuffSize = 1024 := rfl
@[simp] theorem sequenceBase_eq : sequenceBase = 1 := rfl
@[simp] theorem chunkTotalBase_eq : chunkTotalBase = 9 := rfl
@[simp] theorem chunkBase_eq : chunkBase = 11 := rfl

/-- The eight bytes of a 64-bit word, most significant first. -/
def bytesU64 (v : UInt64) : Bytes :=
  [((v >>> 56) &&& 0xFF).toUInt8, ((v >>> 48) &&& 0xFF).toUInt8,
    ((v >>> 40) &&& 0xFF).toUInt8, ((v >>> 32) &&& 0xFF).toUInt8,
    ((v >>> 24) &&& 0xFF).toUInt8, ((v >>> 16) &&& 0xFF).toUInt8,
    ((v >>> 8) &&& 0xFF).toUInt8, (v &&& 0xFF).toUInt8]

/-- The two bytes of a 16-bit word, most significant first. -/
def bytesU16 (v : UInt16) : Bytes :=
  [((v >>> 8) &&& 0xFF).toUInt8, (v &&& 0xFF).toUInt8]

def wireHeader (ch : MessageChunk) : Bytes :=
  mark ch.type :: (bytesU64 ch.sequence ++ (bytesU16 ch.totalChunks ++ bytesU16 ch.chunk))

@[simp] theorem length_wireHeader (ch : MessageChunk) : (wireHeader ch).length = 13 := rfl

def wire (ch : MessageChunk) : Bytes := wireHeader ch ++ ch.writeData

@[simp] theorem length_wire (ch : MessageChunk) :
    (wire ch).length = 13 + ch.writeData.length := by
  simp [wire]

private theorem room {size offset width : Nat} (fits : offset + width ≤ size)
    (small : size < 2 ^ 64) : decide (subSize size offset ≥ width) = true := by
  rw [subSize_of_le (by omega) small]
  exact decide_eq_true (by omega)

theorem writeBeU64_eq (before old after : Bytes) (v : UInt64) (width : old.length = 8)
    (small : (before ++ (old ++ after)).length < 2 ^ 64) :
    writeBeU64 (before ++ (old ++ after)) before.length v =
      .ok (before ++ (bytesU64 v ++ after)) := by
  have fits : before.length + 8 ≤ (before ++ (old ++ after)).length := by
    simp only [List.length_append, width]
    omega
  match old, width with
  | [a, b, c, d, e, f, g, h], _ =>
    rw [writeBeU64, room fits small]
    simp [bytesU64]

theorem writeBeU16_eq (before old after : Bytes) (v : UInt16) (width : old.length = 2)
    (small : (before ++ (old ++ after)).length < 2 ^ 64) :
    writeBeU16 (before ++ (old ++ after)) before.length v =
      .ok (before ++ (bytesU16 v ++ after)) := by
  have fits : before.length + 2 ≤ (before ++ (old ++ after)).length := by
    simp only [List.length_append, width]
    omega
  match old, width with
  | [a, b], _ =>
    rw [writeBeU16, room fits small]
    simp [bytesU16]

private theorem cut {items : Bytes} {left right : Nat} (size : items.length = left + right) :
    ∃ front back, items = front ++ back ∧ front.length = left ∧ back.length = right :=
  ⟨items.take left, items.drop left, (List.take_append_drop ..).symm,
    by simp; omega, by simp; omega⟩

private theorem wire_copied {ch : MessageChunk} {payload : Bytes}
    (size : payload.length = ch.writeData.length) :
    (if ch.writeData.length > 0 then
        copyAt (mark ch.type :: (bytesU64 ch.sequence ++
          (bytesU16 ch.totalChunks ++ (bytesU16 ch.chunk ++ payload)))) messageBase ch.writeData
      else mark ch.type :: (bytesU64 ch.sequence ++
        (bytesU16 ch.totalChunks ++ (bytesU16 ch.chunk ++ payload)))) = wire ch := by
  have header : mark ch.type :: (bytesU64 ch.sequence ++
      (bytesU16 ch.totalChunks ++ (bytesU16 ch.chunk ++ payload))) =
      wireHeader ch ++ payload := by
    simp [wireHeader]
  rw [header]
  by_cases empty : ch.writeData.length = 0
  · have noData : ch.writeData = [] := List.length_eq_zero_iff.mp empty
    have noPayload : payload = [] := List.length_eq_zero_iff.mp (size.trans empty)
    simp [wire, noData, noPayload]
  · rw [if_pos (by omega), copyAt, messageBase_eq, ← length_wireHeader ch, List.take_left,
      List.drop_eq_nil_of_le (by simp; omega), List.append_nil, wire]

/-- Encoding never violates a contract and overwrites the whole buffer. -/
theorem encodeUdpWire_eq (r : Bytes) {ch : MessageChunk}
    (small : ch.writeData.length ≤ maxUdpBuffSize) :
    encodeUdpWire r ch = .ok (wire ch) := by
  rw [maxUdpBuffSize_eq] at small
  obtain ⟨first, rest, shape, firstSize, restSize⟩ :=
    cut (length_resize r (0 : UInt8) (1 + (8 + (2 + (2 + ch.writeData.length)))))
  obtain ⟨sequence, rest, rfl, sequenceSize, restSize⟩ := cut restSize
  obtain ⟨total, rest, rfl, totalSize, restSize⟩ := cut restSize
  obtain ⟨chunk, payload, rfl, chunkSize, payloadSize⟩ := cut restSize
  match first, firstSize with
  | [old], _ =>
    have size : headerSize + ch.writeData.length =
        1 + (8 + (2 + (2 + ch.writeData.length))) := by rw [headerSize_eq]; omega
    have sequenceWrite := writeBeU64_eq [mark ch.type] sequence
      (total ++ (chunk ++ payload)) ch.sequence sequenceSize (by simp; omega)
    have totalWrite := writeBeU16_eq (mark ch.type :: bytesU64 ch.sequence)
      total (chunk ++ payload) ch.totalChunks totalSize
      (by simp [bytesU64]; omega)
    have chunkWrite := writeBeU16_eq
      (mark ch.type :: (bytesU64 ch.sequence ++ bytesU16 ch.totalChunks)) chunk payload
      ch.chunk chunkSize (by simp [bytesU64, bytesU16]; omega)
    simp only [List.cons_append, List.nil_append] at sequenceWrite
    simp only [List.cons_append] at totalWrite
    simp only [List.cons_append, List.append_assoc] at chunkWrite
    simp only [encodeUdpWire, size, shape, List.cons_append, List.nil_append, List.set_cons_zero]
    rw [sequenceBase_eq, show (1 : Nat) = [mark ch.type].length from rfl, sequenceWrite, ok_bind,
      chunkTotalBase_eq, show (9 : Nat) = (mark ch.type :: bytesU64 ch.sequence).length from rfl,
      totalWrite, ok_bind, chunkBase_eq,
      show (11 : Nat) =
        (mark ch.type :: (bytesU64 ch.sequence ++ bytesU16 ch.totalChunks)).length from rfl,
      chunkWrite, ok_bind, pure_ok, wire_copied payloadSize]

private theorem sequence_lanes (v : UInt64) :
    (((v >>> 56) &&& 0xFF).toUInt8.toUInt64 <<< 56) |||
      (((v >>> 48) &&& 0xFF).toUInt8.toUInt64 <<< 48) |||
      (((v >>> 40) &&& 0xFF).toUInt8.toUInt64 <<< 40) |||
      (((v >>> 32) &&& 0xFF).toUInt8.toUInt64 <<< 32) |||
      (((v >>> 24) &&& 0xFF).toUInt8.toUInt64 <<< 24) |||
      (((v >>> 16) &&& 0xFF).toUInt8.toUInt64 <<< 16) |||
      (((v >>> 8) &&& 0xFF).toUInt8.toUInt64 <<< 8) |||
      (v &&& 0xFF).toUInt8.toUInt64 = v := by
  apply UInt64.toNat_inj.mp
  have lanes := lanes64 v.toNat_lt
  simp only [lane, Nat.shiftRight_zero, Nat.shiftLeft_zero] at lanes
  simp only [UInt64.toNat_or, UInt64.toNat_shiftLeft, UInt64.toNat_shiftRight, UInt64.toNat_and,
    UInt8.toNat_toUInt64, UInt64.toNat_toUInt8, UInt64.reduceToNat, Nat.reduceMod]
  rw [Nat.mod_eq_of_lt (a := (v.toNat &&& 255) % 256) (by omega)] at lanes
  exact lanes

private theorem short_lanes (v : UInt16) :
    (((v >>> 8) &&& 0xFF).toUInt8.toUInt16 <<< 8) ||| (v &&& 0xFF).toUInt8.toUInt16 = v := by
  apply UInt16.toNat_inj.mp
  have lanes := lanes16 v.toNat_lt
  simp only [lane, Nat.shiftRight_zero, Nat.shiftLeft_zero] at lanes
  simp only [UInt16.toNat_or, UInt16.toNat_shiftLeft, UInt16.toNat_shiftRight, UInt16.toNat_and,
    UInt8.toNat_toUInt16, UInt16.toNat_toUInt8, UInt16.reduceToNat, Nat.reduceMod]
  rw [Nat.mod_eq_of_lt (a := (v.toNat &&& 255) % 256) (by omega)] at lanes
  exact lanes

@[simp] theorem typeOfMark_mark (type : MsgType) : typeOfMark (mark type) = some type := by
  cases type <;> rfl

theorem readBeU64_eq (before after : Bytes) (v : UInt64)
    (small : (before ++ (bytesU64 v ++ after)).length < 2 ^ 64) :
    readBeU64 (before ++ (bytesU64 v ++ after)) before.length = .ok v := by
  have fits : before.length + 8 ≤ (before ++ (bytesU64 v ++ after)).length := by
    simp [bytesU64]
  rw [readBeU64, room fits small]
  simpa [bytesU64, -UInt64.toUInt8_and] using sequence_lanes v

theorem readBeU16_eq (before after : Bytes) (v : UInt16)
    (small : (before ++ (bytesU16 v ++ after)).length < 2 ^ 64) :
    readBeU16 (before ++ (bytesU16 v ++ after)) before.length = .ok v := by
  have fits : before.length + 2 ≤ (before ++ (bytesU16 v ++ after)).length := by
    simp [bytesU16]
  rw [readBeU16, room fits small]
  simpa [bytesU16, -UInt16.toUInt8_and] using short_lanes v

/-- The chunk a receiver decodes from the datagram of `ch`. -/
def received (ch : MessageChunk) : MessageChunk :=
  { valid := true, sequence := ch.sequence, totalChunks := ch.totalChunks, chunk := ch.chunk,
    data := ch.writeData, type := ch.type }

theorem totalChunks_le_maxChunks (total : UInt16) : total.toNat ≤ maxChunks :=
  Nat.le_of_lt total.toNat_lt

private theorem decodeUdpWire_of_reads {b : Bytes} {sequence : UInt64} {total chunk : UInt16}
    (long : headerSize ≤ b.length) (small : b.length ≤ headerSize + maxUdpBuffSize)
    (sequenceRead : readBeU64 b sequenceBase = .ok sequence)
    (totalRead : readBeU16 b chunkTotalBase = .ok total)
    (chunkRead : readBeU16 b chunkBase = .ok chunk) :
    decodeUdpWire b = .ok (match typeOfMark (b.getD 0 0) with
      | none => {}
      | some type => { valid := true, sequence := sequence, totalChunks := total, chunk := chunk,
                       data := b.drop headerSize, type := type }) := by
  rw [headerSize_eq, maxUdpBuffSize_eq] at small
  rw [headerSize_eq] at long
  rw [sequenceBase_eq] at sequenceRead
  rw [chunkTotalBase_eq] at totalRead
  rw [chunkBase_eq] at chunkRead
  rw [decodeUdpWire, headerSize_eq, decide_eq_true long, require_true, ok_bind]
  cases typeOfMark (b.getD 0 0) with
  | none => rfl
  | some type =>
    simp only [sequenceRead, totalRead, chunkRead, ok_bind, pure_ok, check_true,
      decide_eq_true (totalChunks_le_maxChunks total), gt_iff_lt,
      sequenceBase_eq, chunkTotalBase_eq, chunkBase_eq, messageBase_eq, maxUdpBuffSize_eq,
      if_neg (show ¬ b.length < 1 + 8 by omega), if_neg (show ¬ b.length < 9 + 2 by omega),
      if_neg (show ¬ b.length < 11 + 2 by omega), subSize_of_le long (by omega)]
    by_cases payload : 0 < b.length - 13
    · rw [if_pos payload, if_neg (show ¬ 1024 < b.length - 13 by omega)]
    · rw [if_neg payload, List.drop_eq_nil_of_le (by omega)]

/-- Decoding a datagram gives back the fields and the payload of its chunk. -/
theorem decodeUdpWire_wire {ch : MessageChunk} (small : ch.writeData.length ≤ maxUdpBuffSize) :
    decodeUdpWire (wire ch) = .ok (received ch) := by
  rw [maxUdpBuffSize_eq] at small
  have size : (wire ch).length < 2 ^ 64 := by rw [length_wire]; omega
  have sequenceRead := readBeU64_eq [mark ch.type]
    (bytesU16 ch.totalChunks ++ (bytesU16 ch.chunk ++ ch.writeData)) ch.sequence
    (by simp [bytesU64, bytesU16]; omega)
  have totalRead := readBeU16_eq (mark ch.type :: bytesU64 ch.sequence)
    (bytesU16 ch.chunk ++ ch.writeData) ch.totalChunks
    (by simp [bytesU64, bytesU16]; omega)
  have chunkRead := readBeU16_eq
    (mark ch.type :: (bytesU64 ch.sequence ++ bytesU16 ch.totalChunks)) ch.writeData ch.chunk
    (by simp [bytesU64, bytesU16]; omega)
  have decoded := decodeUdpWire_of_reads (b := wire ch) (by simp) (by simpa using Nat.add_le_add_left small 13)
    (by simpa [wire, wireHeader] using sequenceRead)
    (by simpa [wire, wireHeader, bytesU64] using totalRead)
    (by simpa [wire, wireHeader, bytesU64, bytesU16] using chunkRead)
  have first : (wire ch).getD 0 0 = mark ch.type := rfl
  have payload : (wire ch).drop headerSize = ch.writeData := rfl
  rw [first, typeOfMark_mark, payload] at decoded
  exact decoded

private theorem readBeU64_total (b : Bytes) (offset : Nat) (fits : offset + 8 ≤ b.length)
    (small : b.length < 2 ^ 64) : ∃ v, readBeU64 b offset = .ok v := by
  rw [readBeU64, room fits small]
  exact ⟨_, rfl⟩

private theorem readBeU16_total (b : Bytes) (offset : Nat) (fits : offset + 2 ≤ b.length)
    (small : b.length < 2 ^ 64) : ∃ v, readBeU16 b offset = .ok v := by
  rw [readBeU16, room fits small]
  exact ⟨_, rfl⟩

/-- Any datagram with room for a header decodes without violating a contract,
to an invalid chunk or to one that carries the bytes after the header. -/
theorem decodeUdpWire_total {b : Bytes} (long : headerSize ≤ b.length)
    (small : b.length ≤ maxUdpBuffSize) :
    decodeUdpWire b = .ok {} ∨
      ∃ sequence total chunk type, typeOfMark (b.getD 0 0) = some type ∧
        decodeUdpWire b = .ok
          { valid := true, sequence := sequence, totalChunks := total, chunk := chunk,
            data := b.drop headerSize, type := type } := by
  have long' := long
  have small' := small
  rw [headerSize_eq] at long'
  rw [maxUdpBuffSize_eq] at small'
  obtain ⟨sequence, sequenceRead⟩ := readBeU64_total b sequenceBase
    (by rw [sequenceBase_eq]; omega) (by omega)
  obtain ⟨total, totalRead⟩ := readBeU16_total b chunkTotalBase
    (by rw [chunkTotalBase_eq]; omega) (by omega)
  obtain ⟨chunk, chunkRead⟩ := readBeU16_total b chunkBase
    (by rw [chunkBase_eq]; omega) (by omega)
  have decoded := decodeUdpWire_of_reads long (le_trans small (Nat.le_add_left ..)) sequenceRead
    totalRead chunkRead
  cases marked : typeOfMark (b.getD 0 0) with
  | none => exact .inl (by rw [decoded, marked])
  | some type => exact .inr ⟨sequence, total, chunk, type, rfl, by rw [decoded, marked]⟩

section Inverse

theorem exists_bytesU64 {bytes : Bytes} (width : bytes.length = 8) : ∃ v, bytesU64 v = bytes := by
  match bytes, width with
  | [a, b, c, d, e, f, g, h], _ =>
    obtain ⟨word, small, ⟨byteA, byteB, byteC, byteD⟩, byteE, byteF, byteG, byteH⟩ :=
      exists_word64 ⟨a.toNat_lt, b.toNat_lt, c.toNat_lt, d.toNat_lt⟩
        ⟨e.toNat_lt, f.toNat_lt, g.toNat_lt, h.toNat_lt⟩
    have lane : ∀ (shift : UInt64) (byte : UInt8),
        (word >>> (shift.toNat % 64)) &&& 255 = byte.toNat →
        ((UInt64.ofNat word >>> shift) &&& 0xFF).toUInt8 = byte := by
      intro shift byte same
      apply UInt8.toNat_inj.mp
      rw [UInt64.toNat_toUInt8, UInt64.toNat_and, UInt64.toNat_shiftRight,
        UInt64.toNat_ofNat_of_lt' small]
      exact (congrArg (· % 256) same).trans (Nat.mod_eq_of_lt byte.toNat_lt)
    have last := lane 0 h byteH
    rw [UInt64.shiftRight_zero] at last
    refine ⟨UInt64.ofNat word, ?_⟩
    rw [bytesU64, lane 56 a byteA, lane 48 b byteB, lane 40 c byteC, lane 32 d byteD,
      lane 24 e byteE, lane 16 f byteF, lane 8 g byteG, last]

theorem exists_bytesU16 {bytes : Bytes} (width : bytes.length = 2) : ∃ v, bytesU16 v = bytes := by
  match bytes, width with
  | [a, b], _ =>
    obtain ⟨word, small, byteA, byteB⟩ := exists_word16 a.toNat_lt b.toNat_lt
    have lane : ∀ (shift : UInt16) (byte : UInt8),
        (word >>> (shift.toNat % 16)) &&& 255 = byte.toNat →
        ((UInt16.ofNat word >>> shift) &&& 0xFF).toUInt8 = byte := by
      intro shift byte same
      apply UInt8.toNat_inj.mp
      rw [UInt16.toNat_toUInt8, UInt16.toNat_and, UInt16.toNat_shiftRight,
        UInt16.toNat_ofNat_of_lt' small]
      exact (congrArg (· % 256) same).trans (Nat.mod_eq_of_lt byte.toNat_lt)
    have last := lane 0 b byteB
    rw [UInt16.shiftRight_zero] at last
    refine ⟨UInt16.ofNat word, ?_⟩
    rw [bytesU16, lane 8 a byteA, last]

theorem mark_of_typeOfMark {byte : UInt8} {type : MsgType} (marked : typeOfMark byte = some type) :
    mark type = byte := by
  unfold typeOfMark at marked
  split at marked
  · rename_i same
    cases marked
    exact same.symm
  · split at marked
    · rename_i same
      cases marked
      exact same.symm
    · split at marked
      · rename_i same
        cases marked
        exact same.symm
      · cases marked

/-- Every datagram with a mark and room for a header is the datagram of a chunk. -/
theorem exists_wire {b : Bytes} (long : headerSize ≤ b.length) {type : MsgType}
    (marked : typeOfMark (b.getD 0 0) = some type) :
    ∃ ch, wire ch = b ∧ ch.writeData.length = b.length - headerSize := by
  rw [headerSize_eq] at long
  obtain ⟨first, rest, rfl, firstSize, restSize⟩ :=
    cut (show b.length = 1 + (8 + (2 + (2 + (b.length - 13)))) by omega)
  obtain ⟨sequence, rest, rfl, sequenceSize, restSize⟩ := cut restSize
  obtain ⟨total, rest, rfl, totalSize, restSize⟩ := cut restSize
  obtain ⟨chunk, payload, rfl, chunkSize, payloadSize⟩ := cut restSize
  obtain ⟨sequenceWord, rfl⟩ := exists_bytesU64 sequenceSize
  obtain ⟨totalWord, rfl⟩ := exists_bytesU16 totalSize
  obtain ⟨chunkWord, rfl⟩ := exists_bytesU16 chunkSize
  match first, firstSize with
  | [old], _ =>
    refine ⟨{ sequence := sequenceWord, totalChunks := totalWord, chunk := chunkWord,
              type := type, writeData := payload }, ?_, payloadSize⟩
    have same : mark type = old := mark_of_typeOfMark marked
    simp only [wire, wireHeader, same, List.cons_append, List.nil_append, List.append_assoc]

/-- Decoding undoes encoding for every payload that is read, and encoding what a marked
datagram decodes to gives the datagram back. -/
theorem wire_bijection (r : Bytes) :
    (∀ ch : MessageChunk, ch.writeData.length ≤ 1024 → ∃ b c, encodeUdpWire r ch = .ok b ∧
      decodeUdpWire b = .ok c ∧ c.valid = true ∧ c.type = ch.type ∧ c.sequence = ch.sequence ∧
      c.totalChunks = ch.totalChunks ∧ c.chunk = ch.chunk ∧ c.data = ch.writeData) ∧
    ∀ b : Bytes, 13 ≤ b.length → b.length - 13 ≤ 1024 →
      b.getD 0 0 ∈ [mark .msg, mark .qmsg, mark .ack] →
      ∃ c, decodeUdpWire b = .ok c ∧ c.valid = true ∧
        encodeUdpWire r { c with writeData := c.data } = .ok b := by
  constructor
  · intro ch small
    exact ⟨wire ch, received ch, encodeUdpWire_eq r small, decodeUdpWire_wire small,
      rfl, rfl, rfl, rfl, rfl, rfl⟩
  · intro b long small marked
    have type? : ∃ type, typeOfMark (b.getD 0 0) = some type := by
      simp only [List.mem_cons, List.not_mem_nil, or_false] at marked
      rcases marked with msg | qmsg | ack
      · exact ⟨.msg, by rw [msg, typeOfMark_mark]⟩
      · exact ⟨.qmsg, by rw [qmsg, typeOfMark_mark]⟩
      · exact ⟨.ack, by rw [ack, typeOfMark_mark]⟩
    obtain ⟨type, typed⟩ := type?
    obtain ⟨ch, rfl, size⟩ := exists_wire long typed
    have payload : ch.writeData.length ≤ maxUdpBuffSize := by
      rw [size]
      exact small
    refine ⟨received ch, decodeUdpWire_wire payload, rfl, ?_⟩
    exact @encodeUdpWire_eq r { received ch with writeData := (received ch).data } payload

end Inverse

end Firestr.Network
