import Firestr.Library.Outcomes
import Firestr.Network.UdpReassembly

/-! The chunks of one message in any order and with any repeats. The message is
complete at the arrival after which every chunk has come. -/

set_option autoImplicit false

namespace Firestr.Network

open Firestr.Util Firestr.Library.Blocks Firestr.Library.BitSet Firestr.Library.Outcomes

/-- The chunk with a number as it is cut, sent and received. -/
def arrival (proto : MessageChunk) (data : Bytes) (n : Nat) : Outcome MessageChunk := do
  let c ← nthChunk n proto data
  let datagram ← encodeUdpWire [] c
  decodeUdpWire datagram

/-- Insert chunks until one completes a message: how many came before it, and the
message. -/
def firstComplete : List MessageChunk → WorkingMessages → Outcome (Option (Nat × Bytes))
  | [], _ => pure none
  | c :: rest, w => do
    let (inserted, w, message) ← insertChunk c w
    if inserted then pure (some (0, message))
    else do
      let found ← firstComplete rest w
      pure (found.map fun later => (later.1 + 1, later.2))

def Covers (total : Nat) (numbers : List Nat) : Prop := ∀ n < total, n ∈ numbers

/-- After the numbers `seen`, the message is `data`, and its last chunk is the first after
which all have come. -/
def CoversAfter (total : Nat) (seen numbers : List Nat) (data : Bytes) :
    Option (Nat × Bytes) → Prop
  | none => ¬Covers total (seen ++ numbers)
  | some (before, message) => message = data ∧ before < numbers.length ∧
      ¬Covers total (seen ++ numbers.take before) ∧
      Covers total (seen ++ numbers.take (before + 1))

/-- The message is `data`, and its last chunk is the first after which all have come. -/
def FirstCovers (total : Nat) (numbers : List Nat) (data : Bytes)
    (result : Option (Nat × Bytes)) : Prop := CoversAfter total [] numbers data result

section Arrival

variable {proto : MessageChunk} {data : Bytes} {n : Nat}

theorem arrival_eq (counts : proto.totalChunks.toNat = chunkCount data.length)
    (inside : n < proto.totalChunks.toNat) :
    arrival proto data n = .ok (received (chunkOf n proto data)) := by
  have short := length_chunkOf_writeData n proto data
  rw [udpChunkSize_eq] at short
  unfold arrival
  rw [nthChunk_eq counts inside, ok_bind,
    encodeUdpWire_eq [] (by rw [maxUdpBuffSize_eq]; omega), ok_bind]
  exact decodeUdpWire_wire (by rw [maxUdpBuffSize_eq]; omega)

theorem piece_received (counted : data.length ≤ maxCountedSize)
    (counts : proto.totalChunks.toNat = chunkCount data.length)
    (inside : n < proto.totalChunks.toNat) :
    Piece data (received (chunkOf n proto data)) ∧
      (received (chunkOf n proto data)).chunk.toNat = n := by
  have number : (received (chunkOf n proto data)).chunk.toNat = n :=
    UInt16.toNat_ofNat_of_lt' (lt_trans inside proto.totalChunks.toNat_lt)
  refine ⟨⟨counted, counts, ?_, ?_⟩, number⟩
  · rw [number, ← counts]
    exact inside
  · rw [number]
    rfl

end Arrival

/-- The working set after it has taken the chunks `seen` of one message, and not
all of them. -/
structure Took (data : Bytes) (sequence : UInt64) (w : WorkingMessages) (seen : List Nat) :
    Prop where
  entry : ∀ wm, w sequence = some wm → Gathering data wm
  bits : ∀ n, entryBit w sequence n = true ↔ n ∈ seen
  missing : ¬Covers (chunkCount data.length) seen

section Took

variable {data : Bytes} {sequence : UInt64} {w : WorkingMessages} {seen : List Nat}

theorem Took.start (nonempty : 0 < data.length) :
    Took data sequence (fun _ => none) [] where
  entry wm found := by cases found
  bits n := by
    rw [entryBit]
    simp
  missing covers := by
    have first := covers 0 (blockCount_pos udpChunkSize_pos nonempty)
    cases first

private theorem covers_append {total n : Nat} :
    Covers total (seen ++ [n]) ↔ ∀ k < total, n = k ∨ k ∈ seen := by
  unfold Covers
  simp only [List.mem_append, List.mem_singleton, or_comm, eq_comm]

theorem Took.step (took : Took data sequence w seen) {c : MessageChunk} (piece : Piece data c)
    (same : c.sequence = sequence) :
    (Covers (chunkCount data.length) (seen ++ [c.chunk.toNat]) ∧
        ∃ after, insertion c w = (true, after, data)) ∨
      ∃ after, insertion c w = (false, after, []) ∧
        Took data sequence after (seen ++ [c.chunk.toNat]) := by
  subst same
  rcases insertion_piece piece took.entry with ⟨wm, taken, gathering, bits⟩ | ⟨taken, covered⟩
  · refine .inr ⟨_, taken, ?_, fun n => ?_, fun covers => ?_⟩
    · intro found known
      rw [WorkingMessages.put_self] at known
      cases known
      exact gathering
    · rw [entryBit, WorkingMessages.put_self, Option.elim_some, bits, Bool.or_eq_true,
        decide_eq_true_iff, took.bits, List.mem_append, List.mem_singleton, or_comm, eq_comm]
    · have all : wm.set.count true = wm.set.length := by
        refine count_eq_length_iff.mpr fun n inside => ?_
        rw [gathering.setLength] at inside
        rw [bits, Bool.or_eq_true, decide_eq_true_iff, took.bits]
        exact covers_append.mp covers n inside
      have complete : wm.complete = true := by
        unfold WorkingMessage.complete
        rw [decide_eq_true_iff, all, gathering.setLength, gathering.total]
      rw [gathering.incomplete] at complete
      cases complete
  · refine .inl ⟨covers_append.mpr fun n inside => ?_, _, taken⟩
    rw [← took.bits]
    exact covered n inside

end Took

section Run

variable {data : Bytes} {proto : MessageChunk} {w : WorkingMessages} {seen : List Nat}

private theorem insertChunk_received (data? : proto.type ≠ .ack) (n : Nat) (w : WorkingMessages) :
    insertChunk (received (chunkOf n proto data)) w =
      .ok (insertion (received (chunkOf n proto data)) w) :=
  insertChunk_eq data?

/-- From a working set that has taken `seen`, the rest of the arrivals complete the
message where they and `seen` first cover its chunks. -/
private theorem firstComplete_took (data? : proto.type ≠ .ack)
    (counted : data.length ≤ maxCountedSize)
    (counts : proto.totalChunks.toNat = chunkCount data.length) (rest : List Nat)
    (inside : ∀ n ∈ rest, n < proto.totalChunks.toNat)
    (took : Took data proto.sequence w seen) :
    ∃ result, firstComplete (rest.map fun n => received (chunkOf n proto data)) w = .ok result ∧
      CoversAfter (chunkCount data.length) seen rest data result := by
  induction rest generalizing w seen with
  | nil =>
      refine ⟨none, rfl, ?_⟩
      rw [CoversAfter, List.append_nil]
      exact took.missing
  | cons n rest ih =>
      obtain ⟨piece, number⟩ := piece_received counted counts (inside n List.mem_cons_self)
      have later := fun m member => inside m (List.mem_cons_of_mem n member)
      have step := took.step piece rfl
      rw [number] at step
      rcases step with ⟨covers, after, taken⟩ | ⟨after, taken, next⟩
      · refine ⟨some (0, data), ?_, rfl, Nat.zero_lt_succ _, ?_, covers⟩
        · simp only [List.map_cons, firstComplete, insertChunk_received data?, taken, ok_bind,
            if_true, pure_ok]
        · rw [List.take_zero, List.append_nil]
          exact took.missing
      · obtain ⟨result, success, first⟩ := ih later next
        refine ⟨result.map fun found => (found.1 + 1, found.2), ?_, ?_⟩
        · simp only [List.map_cons, firstComplete, insertChunk_received data?, taken, ok_bind,
            Bool.false_eq_true, if_false, success, pure_ok]
        · cases result with
          | none =>
              simp only [CoversAfter, List.append_assoc, List.singleton_append] at first
              exact first
          | some found =>
              simp only [CoversAfter, List.append_assoc, List.singleton_append] at first
              exact ⟨first.1, Nat.succ_lt_succ first.2.1, first.2.2⟩

end Run

/-- Inserting the chunks of a message, in any order and with any repeats, completes a
message for the first time where all chunks have come, and it is that message. -/
theorem completes_when_covered (sequence : UInt64) (m : EndpointMessage)
    (nonempty : 0 < m.data.length) (counted : m.data.length ≤ 65535 * 499) :
    ∃ proto, createPrototype sequence m = .ok proto ∧
      ∀ numbers : List Nat, (∀ n ∈ numbers, n < proto.totalChunks.toNat) →
        ∃ chunks result, numbers.mapM (arrival proto m.data) = .ok chunks ∧
          firstComplete chunks (fun _ => none) = .ok result ∧
          FirstCovers proto.totalChunks.toNat numbers m.data result := by
  have counts : (prototypeOf sequence m).totalChunks.toNat = chunkCount m.data.length :=
    UInt16.toNat_ofNat_of_lt' (chunkCount_lt counted)
  have data? : (prototypeOf sequence m).type ≠ .ack := by
    unfold prototypeOf
    cases m.robust <;> simp
  refine ⟨_, createPrototype_eq sequence nonempty counted, fun numbers inside => ?_⟩
  obtain ⟨result, success, first⟩ :=
    firstComplete_took data? counted counts numbers inside (.start nonempty)
  refine ⟨_, result, mapM_ok fun n member => arrival_eq counts (inside n member), success, ?_⟩
  rw [counts]
  exact first

section Late

/-- Two full chunks and a short one. -/
def lateMessage : EndpointMessage :=
  { ep := ⟨udp, "10.0.0.1", 6060⟩, data := List.replicate 1000 33, robust := true }

/-- The chunks come out of order, and some again: the fourth arrival completes the
message. -/
theorem completes_when_covered_late : ∃ proto chunks,
    createPrototype 1 lateMessage = .ok proto ∧
    [2, 0, 2, 1, 0].mapM (arrival proto lateMessage.data) = .ok chunks ∧
    firstComplete chunks (fun _ => none) = .ok (some (3, lateMessage.data)) := by
  have length : lateMessage.data.length = 1000 := List.length_replicate
  obtain ⟨proto, success, runs⟩ := completes_when_covered 1 lateMessage
    (by rw [length]; decide) (by rw [length]; decide)
  have total : proto.totalChunks.toNat = 3 := by
    have known : createPrototype 1 lateMessage = .ok (prototypeOf 1 lateMessage) :=
      createPrototype_eq 1 (by rw [length]; decide) (by rw [length]; decide)
    cases success.symm.trans known
    decide +kernel
  obtain ⟨chunks, result, arrived, first, covers⟩ := runs [2, 0, 2, 1, 0] (by rw [total]; decide)
  refine ⟨proto, chunks, success, arrived, ?_⟩
  rw [first]
  rw [total] at covers
  cases result with
  | none => exact absurd (show Covers 3 [2, 0, 2, 1, 0] by unfold Covers; decide) covers
  | some found =>
      obtain ⟨before, message⟩ := found
      obtain ⟨rfl, inside, missing, all⟩ := covers
      have third : before = 3 := by
        unfold Covers at missing all
        match before, inside with
        | 0, _ => exact absurd all (by decide)
        | 1, _ => exact absurd all (by decide)
        | 2, _ => exact absurd all (by decide)
        | 3, _ => rfl
        | 4, _ => exact absurd missing (by decide)
      rw [third]

end Late

end Firestr.Network
