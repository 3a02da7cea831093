import Firestr.Network.UdpSenderPreserved

/-! Adding a message to the working set. -/

set_option autoImplicit false

namespace Firestr.Network

open Firestr.Util Firestr.Library.Blocks

variable {Address : Type} {ip : IpAddresses Address} {log : List EndpointMessage}
  {s : UdpConnection Address} {m : EndpointMessage}

theorem numbered_append {sequence : UInt64} {found : EndpointMessage}
    (entry : numbered log sequence = some found) (later : List EndpointMessage) :
    numbered (log ++ later) sequence = some found := by
  unfold numbered at entry ⊢
  split at entry
  · cases entry
  · rw [List.getElem?_append_left (List.getElem?_eq_some_iff.mp entry).1, entry]

theorem numbered_last {sequence : UInt64} (last : sequence.toNat = log.length + 1) :
    numbered (log ++ [m]) sequence = some m := by
  rw [numbered, last]
  simp

theorem toNat_le_of_numbered {sequence : UInt64} {found : EndpointMessage}
    (entry : numbered log sequence = some found) : sequence.toNat ≤ log.length := by
  unfold numbered at entry
  split at entry
  · cases entry
  · have inside := (List.getElem?_eq_some_iff.mp entry).1
    omega

/-- A message before any of its chunks is sent. -/
def freshMessage (sequence : UInt64) (m : EndpointMessage) : WorkingMessage :=
  { proto := prototypeOf sequence m
    data := m.data
    set := List.replicate (chunkCount m.data.length) false
    sent := List.replicate (chunkCount m.data.length) false }

def UdpConnection.added (s : UdpConnection Address) (m : EndpointMessage) :
    UdpConnection Address :=
  { s with
    sequence := s.sequence + 1
    outWorking := s.outWorking.put (s.sequence + 1) (freshMessage (s.sequence + 1) m)
    messageRing := s.messageRing ++ [{ wm := s.sequence + 1, resends := [] }] }

theorem Sending.fresh (sendable : Sendable ip m) (sequence : UInt64) :
    Sending m sequence (freshMessage sequence m) where
  proto := rfl
  data := rfl
  queued := rfl
  setLength := List.length_replicate
  sent := by rw [freshMessage, sentBits_zero]
  bounded := Nat.zero_le _
  unfinished _ := blockCount_pos udpChunkSize_pos sendable.nonempty

section Add

theorem toNat_next (room : s.sequence.toNat + 1 < 2 ^ 64) :
    (s.sequence + 1).toNat = s.sequence.toNat + 1 := by
  rw [UInt64.toNat_add]
  exact Nat.mod_eq_of_lt room

theorem SenderBase.unused (base : SenderBase ip log s) (room : s.sequence.toNat + 1 < 2 ^ 64) :
    s.outWorking (s.sequence + 1) = none := by
  by_contra used
  obtain ⟨wm, working⟩ := Option.ne_none_iff_exists'.mp used
  obtain ⟨found, entry, -⟩ := base.working _ _ working
  have below := toNat_le_of_numbered entry
  rw [toNat_next room, base.counter] at below
  omega

theorem addToWorkingSet_eq (base : SenderBase ip log s) (sendable : Sendable ip m)
    (room : s.sequence.toNat + 1 < 2 ^ 64) : s.addToWorkingSet m = .ok (s.added m) := by
  have some? : m.data.isEmpty = false := by
    rw [List.isEmpty_eq_false_iff]
    exact List.ne_nil_of_length_pos sendable.nonempty
  have total := toNat_totalChunks_prototypeOf (s.sequence + 1) sendable.counted
  have positive : chunkCount m.data.length > 0 :=
    blockCount_pos udpChunkSize_pos sendable.nonempty
  simp only [UdpConnection.addToWorkingSet, some?, Bool.not_false, require_true, ok_bind,
    createPrototype_eq _ sendable.nonempty sendable.counted, UdpConnection.initWorking,
    prototypeOf_sequence, base.unused room, Option.getD_none, resize_nil, total,
    decide_eq_true positive, pure_ok]
  rfl

theorem SenderBase.add (base : SenderBase ip log s) (sendable : Sendable ip m)
    (room : s.sequence.toNat + 1 < 2 ^ 64) : SenderBase ip (log ++ [m]) (s.added m) := by
  have unused := base.unused room
  have fresh : s.sequence + 1 ∉ s.messageRing.map (·.wm) := by
    rw [base.listed, unused]
    exact Bool.false_ne_true
  have last : numbered (log ++ [m]) (s.sequence + 1) = some m :=
    numbered_last (by rw [toNat_next room, base.counter])
  have lookup : ∀ key found,
      s.outWorking.put (s.sequence + 1) (freshMessage (s.sequence + 1) m) key = some found →
        (key = s.sequence + 1 ∧ found = freshMessage (s.sequence + 1) m) ∨
          (key ≠ s.sequence + 1 ∧ s.outWorking key = some found) := fun key found entry =>
    (WorkingMessages.put_eq_some ..).mp entry
  exact {
    sendable := fun other member => by
      rcases List.mem_append.mp member with earlier | here
      · exact base.sendable other earlier
      · rw [List.mem_singleton.mp here]
        exact sendable
    counter := by
      rw [List.length_append, ← base.counter]
      exact toNat_next room
    listed := fun key => by
      change key ∈ (s.messageRing ++ [_]).map _ ↔ (s.outWorking.put _ _ key).isSome = true
      rw [List.map_append, List.mem_append, base.listed, WorkingMessages.put_apply]
      by_cases here : key = s.sequence + 1 <;> simp [here]
    distinct := by
      change ((s.messageRing ++ [_]).map _).Nodup
      rw [List.map_append, List.nodup_append]
      refine ⟨base.distinct, by simp, ?_⟩
      rintro key earlier other here rfl
      simp only [List.map_cons, List.map_nil, List.mem_singleton] at here
      exact fresh (here ▸ earlier)
    working := fun key found entry => by
      rcases lookup key found entry with ⟨rfl, rfl⟩ | ⟨-, entry⟩
      · exact ⟨m, last, .fresh sendable _⟩
      · obtain ⟨other, named, sending⟩ := base.working key found entry
        exact ⟨other, numbered_append named _, sending⟩
    resends := fun r member found entry id queued => by
      rcases List.mem_append.mp member with earlier | here
      · rcases lookup _ found entry with ⟨same, -⟩ | ⟨-, entry⟩
        · exact absurd (same ▸ List.mem_map_of_mem earlier) fresh
        · exact base.resends r earlier found entry id queued
      · rw [List.mem_singleton.mp here] at queued
        cases queued
    acks := base.acks
    datagrams := fun d member => by
      refine (base.datagrams d member).imp_right ?_
      rintro ⟨key, other, n, ⟨named, inside, bytes⟩, sent⟩
      refine ⟨key, other, n, ⟨numbered_append named _, inside, bytes⟩, fun found entry => ?_⟩
      rcases lookup key found entry with ⟨rfl, -⟩ | ⟨-, entry⟩
      · have below := toNat_le_of_numbered named
        rw [toNat_next room, base.counter] at below
        omega
      · exact sent found entry }

/-- What `add_to_working_set` accepts of the messages that `send` accepts can
be counted: a chunk total of 65536 comes out as zero. -/
theorem counted_of_addToWorkingSet {next : UdpConnection Address}
    (accepted : UdpConnection.accepts m = true) (success : s.addToWorkingSet m = .ok next) :
    0 < m.data.length ∧ m.data.length ≤ maxCountedSize := by
  simp only [UdpConnection.accepts, Bool.and_eq_true, Bool.not_eq_true', decide_eq_true_eq]
    at accepted
  simp only [UdpConnection.addToWorkingSet, accepted.1, Bool.not_false, require_true, ok_bind]
    at success
  obtain ⟨proto, created, -⟩ := bind_ok success
  obtain ⟨total, counted, -⟩ := bind_ok created
  exact counted_of_totalChunks accepted.2 counted

end Add

end Firestr.Network
