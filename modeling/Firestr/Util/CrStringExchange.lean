import Firestr.Util.CrString

/-! What exchanges do to two replicas. The newer one wins, and concurrent ones
take each other's string and stay concurrent. -/

set_option autoImplicit false

namespace Firestr.Util

open Firestr.Library.VersionVector Firestr.Library.Runs

variable {Id : Type} [DecidableEq Id]

/-- A string whose clock has its own id. -/
structure CrString.Formed (me : CrString Id) : Prop where
  counted : me.c.c.Counted
  own : me.c.i ∈ me.c.c

section Merge

variable (dtl : Dtl) {me o : CrString Id}

/-- What `merge` with the string `o` can do: `me` is the same as before when
`o` is older or identical. -/
inductive Merges (me o : CrString Id) : MergeResult → CrString Id → Prop where
  | newer (below : me.c.c.counts < o.c.c.counts) :
      Merges me o .updated { c := me.c.joined o.c, s := o.s }
  | stale (below : o.c.c.counts ≤ me.c.c.counts) : Merges me o .noChange me
  | concurrent (apart : Concurrent me.c.c.counts o.c.c.counts) :
      Merges me o .merged { c := me.c.increment.joined o.c, s := o.s }

theorem merge_newer (mine : me.Formed) (other : o.Formed)
    (above : me.c.c.counts < o.c.c.counts) :
    me.merge dtl o = .ok (.updated, { c := me.c.joined o.c, s := o.s }) := by
  have joins := TrackedVClock.add_eq mine.own other.own
  have order := VClock.compare_of_gt other.counted mine.counted above
  simp [CrString.merge, TrackedVClock.compare_eq other.own mine.own, order, joins]

/-- A string that `compare` takes for older or identical has its clock added, and
no more. -/
theorem merge_of_le (mine : me.c.i ∈ me.c.c) (other : o.c.i ∈ o.c.c)
    (stale : o.c.c.le me.c.c = true) :
    me.merge dtl o = .ok (.noChange, { me with c := me.c.joined o.c }) := by
  have joins := TrackedVClock.add_eq mine other
  have compares := TrackedVClock.compare_eq other mine
  rw [VClock.le, VClock.identical, Bool.or_eq_true, beq_iff_eq, decide_eq_true_iff] at stale
  rcases stale with older | same
  · rw [older] at compares
    simp [CrString.merge, compares, joins]
  · have identical := TrackedVClock.identical_eq mine other
    rw [decide_eq_true same.symm] at identical
    rw [same, VClock.compare_self] at compares
    simp [CrString.merge, compares, joins, identical]

/-- The own id stays in the clock, whatever is merged. -/
theorem own_of_merge {result : MergeResult} {next : CrString Id}
    (merged : me.merge dtl o = .ok (result, next)) : next.c.i ∈ next.c.c := by
  obtain ⟨order, -, merged⟩ := bind_ok merged
  obtain ⟨⟨result, between⟩, -, merged⟩ := bind_ok merged
  obtain ⟨c, added, merged⟩ := bind_ok merged
  cases merged
  obtain ⟨-, -, added⟩ := bind_ok added
  dsimp only at added
  cases seen : (between.c.c.add o.c.c).has between.c.i with
  | false => simp [seen, contract] at added
  | true =>
      rw [seen, contract_true, ok_bind] at added
      cases added
      exact of_decide_eq_true seen

theorem merge_stale (mine : me.Formed) (other : o.Formed)
    (stale : o.c.c.counts ≤ me.c.c.counts) : me.merge dtl o = .ok (.noChange, me) := by
  have clock : me.c.joined o.c = me.c := by
    rw [TrackedVClock.joined, VClock.add_eq_left mine.counted other.counted stale]
  rw [merge_of_le dtl mine.own other.own ((VClock.le_iff other.counted mine.counted).mpr stale),
    clock]

/-- A concurrent string replaces the own one: it is passed as both versions,
and the own one as their base. -/
theorem merge_concurrent (mine : me.Formed) (other : o.Formed)
    (concurrent : Concurrent me.c.c.counts o.c.c.counts) :
    me.merge dtl o = .ok (.merged, { c := me.c.increment.joined o.c, s := o.s }) := by
  have order := VClock.compare_of_concurrent other.counted mine.counted concurrent.symm
  have different : me.c.c ≠ o.c.c := fun equal => concurrent.ne (equal ▸ rfl)
  have identical := TrackedVClock.identical_eq mine.own other.own
  have ticked : me.c.increment.add o.c = .ok (me.c.increment.joined o.c) :=
    TrackedVClock.add_eq ((Finmap.mem_insert ..).mpr (.inl rfl)) other.own
  rw [decide_eq_false different] at identical
  simp [CrString.merge, TrackedVClock.compare_eq other.own mine.own, order, identical,
    dtl.merge_same, ticked]

theorem merge_cases (mine : me.Formed) (other : o.Formed) :
    ∃ result next, me.merge dtl o = .ok (result, next) ∧ Merges me o result next := by
  rcases trichotomy me.c.c.counts o.c.c.counts with below | above | same | apart
  · exact ⟨_, _, merge_newer dtl mine other below, .newer below⟩
  · exact ⟨_, _, merge_stale dtl mine other above.le, .stale above.le⟩
  · exact ⟨_, _, merge_stale dtl mine other same.ge, .stale same.ge⟩
  · exact ⟨_, _, merge_concurrent dtl mine other apart, .concurrent apart⟩

theorem merges_of_merge {result : MergeResult} {next : CrString Id} (mine : me.Formed)
    (other : o.Formed) (merged : me.merge dtl o = .ok (result, next)) :
    Merges me o result next := by
  obtain ⟨result, next, success, does⟩ := merge_cases dtl mine other
  cases success.symm.trans merged
  exact does

end Merge

/-- Two replicas that each know the most of their own changes. -/
structure Facing (pair : CrString Id × CrString Id) : Prop where
  different : pair.1.c.i ≠ pair.2.c.i
  first : pair.1.Formed
  second : pair.2.Formed
  firstNewest : pair.2.c.c.counts pair.1.c.i ≤ pair.1.c.c.counts pair.1.c.i
  secondNewest : pair.1.c.c.counts pair.2.c.i ≤ pair.2.c.c.counts pair.2.c.i

/-- Both replicas hold the same string, and their clocks are identical. -/
def Converged (pair : CrString Id × CrString Id) : Prop :=
  pair.1.s = pair.2.s ∧ pair.1.c.c = pair.2.c.c

/-- Both replicas can count `n` more changes. -/
def Roomy (n : Nat) (pair : CrString Id × CrString Id) : Prop := pair.1.Room n ∧ pair.2.Room n

section Exchange

variable {dtl : Dtl} {pair : CrString Id × CrString Id}

theorem CrString.Formed.joined {me o : CrString Id} (mine : me.Formed) (other : o.Formed)
    {s : Bytes} : CrString.Formed { c := me.c.joined o.c, s := s } where
  counted := mine.counted.add other.counted
  own := (VClock.mem_add ..).mpr (.inl mine.own)

theorem CrString.Formed.incremented {me : CrString Id} (mine : me.Formed) (room : me.Room 1) :
    (me.set me.s).Formed where
  counted := me.c.counted_increment mine.counted room
  own := (Finmap.mem_insert ..).mpr (.inl rfl)

private theorem exchange_eq {first second : CrString Id} {left right : MergeResult}
    (one : pair.1.merge dtl pair.2 = .ok (left, first))
    (two : pair.2.merge dtl pair.1 = .ok (right, second)) :
    exchange dtl pair = .ok (first, second) := by
  simp only [exchange, one, two, ok_bind, pure_ok]

private theorem exchange_ordered (facing : Facing pair)
    (ordered : pair.1.c.c.counts < pair.2.c.c.counts ∨ pair.2.c.c.counts < pair.1.c.c.counts) :
    ∃ after, exchange dtl pair = .ok after ∧ Converged after := by
  rcases ordered with below | above
  · have clock := VClock.add_eq_right facing.first.counted facing.second.counted below.le
    exact ⟨_, exchange_eq (merge_newer dtl facing.first facing.second below)
      (merge_stale dtl facing.second facing.first below.le), rfl, clock⟩
  · have clock := VClock.add_eq_right facing.second.counted facing.first.counted above.le
    exact ⟨_, exchange_eq (merge_stale dtl facing.first facing.second above.le)
      (merge_newer dtl facing.second facing.first above), rfl, clock.symm⟩

private theorem exchange_identical (facing : Facing pair) (same : pair.1.c.c = pair.2.c.c) :
    exchange dtl pair = .ok pair :=
  exchange_eq (merge_stale dtl facing.first facing.second (same ▸ le_rfl))
    (merge_stale dtl facing.second facing.first (same ▸ le_rfl))

private theorem exchange_concurrent (facing : Facing pair) (room : Roomy 1 pair)
    (concurrent : Concurrent pair.1.c.c.counts pair.2.c.c.counts) :
    ∃ after, exchange dtl pair = .ok after ∧ Facing after ∧
      Concurrent after.1.c.c.counts after.2.c.c.counts ∧
      ∀ n, Roomy (n + 1) pair → Roomy n after := by
  have first := facing.first.incremented room.1
  have second := facing.second.incremented room.2
  have firstCounts : (pair.1.c.increment.joined pair.2.c).c.counts =
      tick pair.1.c.c.counts pair.1.c.i ⊔ pair.2.c.c.counts := by
    rw [TrackedVClock.joined, VClock.counts_add, TrackedVClock.counts_increment room.1]
  have secondCounts : (pair.2.c.increment.joined pair.1.c).c.counts =
      tick pair.2.c.c.counts pair.2.c.i ⊔ pair.1.c.c.counts := by
    rw [TrackedVClock.joined, VClock.counts_add, TrackedVClock.counts_increment room.2]
  have firstOwn := tick_sup_own facing.firstNewest
  have secondOwn := tick_sup_own facing.secondNewest
  have firstOther := tick_sup_other facing.different facing.secondNewest
  have secondOther := tick_sup_other facing.different.symm facing.firstNewest
  refine ⟨({ c := pair.1.c.increment.joined pair.2.c, s := pair.2.s },
    { c := pair.2.c.increment.joined pair.1.c, s := pair.1.s }),
    exchange_eq (merge_concurrent dtl facing.first facing.second concurrent)
      (merge_concurrent dtl facing.second facing.first concurrent.symm), ?_, ?_, ?_⟩
  · refine ⟨facing.different, first.joined facing.second, second.joined facing.first, ?_, ?_⟩
    · change (pair.2.c.increment.joined pair.1.c).c.counts pair.1.c.i ≤
        (pair.1.c.increment.joined pair.2.c).c.counts pair.1.c.i
      rw [firstCounts, secondCounts, firstOwn, secondOther]
      exact Nat.le_succ _
    · change (pair.1.c.increment.joined pair.2.c).c.counts pair.2.c.i ≤
        (pair.2.c.increment.joined pair.1.c).c.counts pair.2.c.i
      rw [firstCounts, secondCounts, secondOwn, firstOther]
      exact Nat.le_succ _
  · change Concurrent (pair.1.c.increment.joined pair.2.c).c.counts
      (pair.2.c.increment.joined pair.1.c).c.counts
    rw [firstCounts, secondCounts]
    exact concurrent_exchange facing.different facing.firstNewest facing.secondNewest
  · intro n more
    constructor
    · change (pair.1.c.increment.joined pair.2.c).c.counts pair.1.c.i + n < 2 ^ 63
      rw [firstCounts, firstOwn]
      have := more.1
      rw [CrString.Room] at this
      omega
    · change (pair.2.c.increment.joined pair.1.c).c.counts pair.2.c.i + n < 2 ^ 63
      rw [secondCounts, secondOwn]
      have := more.2
      rw [CrString.Room] at this
      omega

/-- No number of exchanges makes concurrent replicas converge. -/
theorem exchanges_concurrent (facing : Facing pair)
    (concurrent : Concurrent pair.1.c.c.counts pair.2.c.c.counts) {n : Nat} (room : Roomy n pair) :
    ∃ after, exchanges dtl n pair = .ok after ∧ ¬ Converged after := by
  induction n generalizing pair with
  | zero => exact ⟨pair, rfl, fun converged => concurrent.ne (converged.2 ▸ rfl)⟩
  | succ n ih =>
      have one : Roomy 1 pair := by
        obtain ⟨first, second⟩ := room
        rw [CrString.Room] at first second
        constructor <;> rw [CrString.Room] <;> omega
      obtain ⟨between, exchanged, facing, still, less⟩ :=
        exchange_concurrent facing one concurrent
      obtain ⟨after, later, apart⟩ := ih facing still (less n room)
      refine ⟨after, ?_, apart⟩
      rw [exchanges, exchanged, ok_bind, later]

theorem exchanges_identical (facing : Facing pair) (same : pair.1.c.c = pair.2.c.c) (n : Nat) :
    exchanges dtl n pair = .ok pair := by
  induction n with
  | zero => rfl
  | succ n ih => rw [exchanges, exchange_identical facing same, ok_bind, ih]

/-- Replicas converge exactly when one is newer, or they agree already. -/
theorem Facing.converge_iff (facing : Facing pair) (room : Roomy 1 pair) :
    (∃ n after, Roomy n pair ∧ exchanges dtl n pair = .ok after ∧ Converged after) ↔
      pair.1.c.c.compare pair.2.c.c ≠ 0 ∨ Converged pair := by
  rw [VClock.compare_ne_zero_iff facing.first.counted facing.second.counted]
  constructor
  · rintro ⟨n, after, more, exchanged, converged⟩
    rcases trichotomy pair.1.c.c.counts pair.2.c.c.counts with below | above | same | concurrent
    · exact .inl (.inl below)
    · exact .inl (.inr above)
    · have clocks := VClock.eq_of_counts_eq facing.first.counted facing.second.counted same
      cases (exchanges_identical facing clocks n).symm.trans exchanged
      exact .inr converged
    · obtain ⟨other, again, apart⟩ := exchanges_concurrent facing concurrent more
      cases again.symm.trans exchanged
      exact absurd converged apart
  · rintro (ordered | converged)
    · obtain ⟨after, exchanged, converged⟩ := exchange_ordered facing ordered
      refine ⟨1, after, room, ?_, converged⟩
      rw [exchanges, exchanged]
      rfl
    · exact ⟨1, pair, room, exchanges_identical facing converged.2 1, converged⟩

end Exchange

end Firestr.Util
