import Firestr.Util.VClockProperties

/-! When `compare` gives the verdict on the counts. It takes each count as a signed
word, so a count from 2^63 on is less than every smaller one. -/

set_option autoImplicit false

namespace Firestr.Util

open Firestr.Library.VersionVector

variable {Id : Type} [DecidableEq Id]

namespace VClock

/-- `operator <`. -/
def lt (c o : VClock Id) : Bool := c.compare o == -1

/-- No difference overflows, and `compare` is 1 if the clock counts at least as much
of every id and more of some, -1 in the mirrored case, and 0 otherwise. -/
structure Compares (c o : VClock Id) : Prop where
  subtracts : Subtracts c o
  verdict : c.compare o = verdict c.counts o.counts

/-- Both counts of an id are below 2^63, or neither is. -/
def SameHalf (c o : VClock Id) : Prop := ∀ k, c.counts k < 2 ^ 63 ↔ o.counts k < 2 ^ 63

/-- The clocks are concurrent as they are and as signed words. -/
def Spread (c o : VClock Id) : Prop :=
  Concurrent c.counts o.counts ∧ ¬c.signed ≤ o.signed ∧ ¬o.signed ≤ c.signed

/-- The clocks that `compare` is right about. -/
def Comparable (c o : VClock Id) : Prop := SameHalf c o ∨ Subtracts c o ∧ Spread c o

section Signed

variable {c o : VClock Id}

theorem signed_of_ge {k : Id} (large : 2 ^ 63 ≤ c.counts k) :
    c.signed k = c.counts k - 2 ^ 64 := by
  have bound : (c.count k).toNat < 2 ^ 64 := (c.count k).toNat_lt
  unfold counts at large ⊢
  have value : c.signed k = Int.bmod ((c.count k).toNat : Int) (2 ^ 64) := by
    rw [signed, ← UInt64.ofNat_toNat (x := c.count k), UInt64.toInt64_ofNat', Int64.toInt_ofNat',
      UInt64.ofNat_toNat]
    rfl
  rw [value, Int.bmod_neg _ _ (by omega)]
  omega

private theorem signed_bounds (c : VClock Id) (k : Id) :
    (c.counts k < 2 ^ 63 → c.signed k = c.counts k) ∧
      (¬c.counts k < 2 ^ 63 → c.signed k = c.counts k - 2 ^ 64) ∧ c.counts k < 2 ^ 64 :=
  ⟨signed_of_lt, fun large => signed_of_ge (Nat.le_of_not_lt large), (c.count k).toNat_lt⟩

theorem SameHalf.symm (half : SameHalf c o) : SameHalf o c := fun k => (half k).symm

theorem SameHalf.subtracts (half : SameHalf c o) : Subtracts c o := by
  intro k
  have same := half k
  obtain ⟨mineLow, mineHigh, mineBound⟩ := signed_bounds c k
  obtain ⟨otherLow, otherHigh, otherBound⟩ := signed_bounds o k
  by_cases small : c.counts k < 2 ^ 63
  · rw [mineLow small, otherLow (same.mp small)]
    omega
  · rw [mineHigh small, otherHigh (mt same.mpr small)]
    omega

theorem SameHalf.signed_le_iff (half : SameHalf c o) :
    c.signed ≤ o.signed ↔ c.counts ≤ o.counts := by
  rw [Pi.le_def, Pi.le_def]
  refine forall_congr' fun k => ?_
  have same := half k
  obtain ⟨mineLow, mineHigh, -⟩ := signed_bounds c k
  obtain ⟨otherLow, otherHigh, -⟩ := signed_bounds o k
  by_cases small : c.counts k < 2 ^ 63
  · rw [mineLow small, otherLow (same.mp small)]
    omega
  · rw [mineHigh small, otherHigh (mt same.mpr small)]
    omega

/-- Where one count is below 2^63 and the other is not, the signed words are in the
opposite order. -/
private theorem crossed (k : Id) (apart : ¬(c.counts k < 2 ^ 63 ↔ o.counts k < 2 ^ 63)) :
    (c.counts k < o.counts k ∧ o.signed k < c.signed k) ∨
      (o.counts k < c.counts k ∧ c.signed k < o.signed k) := by
  obtain ⟨mineLow, mineHigh, mineBound⟩ := signed_bounds c k
  obtain ⟨otherLow, otherHigh, otherBound⟩ := signed_bounds o k
  by_cases small : c.counts k < 2 ^ 63
  · have large : ¬o.counts k < 2 ^ 63 := fun other => apart (iff_of_true small other)
    rw [mineLow small, otherHigh large]
    omega
  · have other : o.counts k < 2 ^ 63 := by
      by_contra large
      exact apart (iff_of_false small large)
    rw [mineHigh small, otherLow other]
    omega

/-- With a crossed id the clock is not below the other in both orders, nor above it. -/
private theorem spread_of_crossed (k : Id)
    (cross : c.counts k < o.counts k ∧ o.signed k < c.signed k)
    (same : verdict c.signed o.signed = verdict c.counts o.counts) : Spread c o := by
  have notAbove : ¬o.counts ≤ c.counts := fun above => absurd (above k) (Nat.not_le.mpr cross.1)
  have notBelow : ¬c.signed ≤ o.signed := fun below => absurd (below k) (Int.not_le.mpr cross.2)
  have notBelowCounts : ¬c.counts ≤ o.counts := by
    intro below
    rw [verdict_of_lt (lt_of_le_not_ge below notAbove), verdict_eq_neg_one_iff] at same
    exact notBelow same.le
  refine ⟨⟨notBelowCounts, notAbove⟩, notBelow, fun above => ?_⟩
  rw [verdict_of_gt (lt_of_le_not_ge above notBelow), eq_comm, verdict_eq_one_iff] at same
  exact notAbove same.le

theorem Spread.symm (spread : Spread c o) : Spread o c := ⟨spread.1.symm, spread.2.2, spread.2.1⟩

theorem compares_iff : Compares c o ↔ Comparable c o := by
  constructor
  · rintro ⟨subtracts, same⟩
    rw [compare_eq_signed subtracts] at same
    by_cases half : SameHalf c o
    · exact .inl half
    · obtain ⟨k, apart⟩ := not_forall.mp half
      refine .inr ⟨subtracts, ?_⟩
      rcases crossed k apart with mine | other
      · exact spread_of_crossed k mine same
      · rw [verdict_swap c.signed, verdict_swap c.counts, neg_inj] at same
        exact (spread_of_crossed k other same).symm
  · rintro (half | ⟨subtracts, spread⟩)
    · refine ⟨half.subtracts, ?_⟩
      rw [compare_eq_signed half.subtracts]
      exact verdict_congr half.signed_le_iff half.symm.signed_le_iff
    · refine ⟨subtracts, ?_⟩
      rw [compare_eq_signed subtracts, verdict_of_not_le spread.2.1 spread.2.2,
        verdict_of_not_le spread.1.1 spread.1.2]

theorem lt_iff (right : Comparable c o) : c.lt o = true ↔ c.counts < o.counts := by
  rw [lt, beq_iff_eq, (compares_iff.mpr right).verdict, verdict_eq_neg_one_iff]

theorem lt_self (c : VClock Id) : c.lt c = false := by
  have same : Comparable c c := .inl fun _ => Iff.rfl
  rw [← Bool.not_eq_true, lt_iff same]
  exact lt_irrefl _

theorem lt_trans {e : VClock Id} (first : Comparable c o) (second : Comparable o e)
    (ends : Comparable c e) (below : c.lt o = true) (above : o.lt e = true) : c.lt e = true :=
  (lt_iff ends).mpr (((lt_iff first).mp below).trans ((lt_iff second).mp above))

theorem lt_asymm (right : Comparable c o) (mirrored : Comparable o c) (below : c.lt o = true) :
    o.lt c = false := by
  rw [← Bool.not_eq_true, lt_iff mirrored]
  exact ((lt_iff right).mp below).not_gt

theorem compare_swap (right : Comparable c o) (mirrored : Comparable o c) :
    c.compare o = -o.compare c := by
  rw [(compares_iff.mpr right).verdict, (compares_iff.mpr mirrored).verdict, verdict_swap]

end Signed

/-- `compare` gives the verdict on the counts exactly for comparable clocks, and among
these `operator <` is a strict order. -/
theorem compares_exactly :
    (∀ c o : VClock Id, Compares c o ↔ Comparable c o) ∧
    (∀ c : VClock Id, c.lt c = false) ∧
    (∀ c o : VClock Id, Comparable c o → Comparable o c →
      c.compare o = -o.compare c ∧ (c.lt o = true → o.lt c = false)) ∧
    ∀ c o e : VClock Id, Comparable c o → Comparable o e → Comparable c e →
      c.lt o = true → o.lt e = true → c.lt e = true :=
  ⟨fun _ _ => compares_iff, lt_self, fun _ _ right mirrored =>
    ⟨compare_swap right mirrored, lt_asymm right mirrored⟩, fun _ _ _ => lt_trans⟩

/-- A count from 2^63 on makes a greater clock less. -/
theorem large_count_reversed :
    counts (∅ : VClock Nat) < counts (Finmap.singleton 0 (2 ^ 63)) ∧
      compare (Finmap.singleton 0 (2 ^ 63)) (∅ : VClock Nat) = -1 := by
  have nothing : (∅ : VClock Nat).counts = fun _ => 0 :=
    funext fun _ => counts_of_not_mem Finmap.notMem_empty
  refine ⟨Pi.lt_def.mpr ⟨fun _ => ?_, 0, ?_⟩, by decide +kernel⟩
  · rw [nothing]
    exact Nat.zero_le _
  · rw [nothing]
    decide +kernel

end VClock

end Firestr.Util
