import Mathlib
import Firestr.Library.VersionVector
import Firestr.Util.VClock

/-! Clocks as version vectors. With counts below 2^63 the signed differences
of `compare` do not overflow, and the clock operations are those of the order. -/

set_option autoImplicit false

namespace Firestr.Util

open Firestr.Library.VersionVector

variable {Id : Type} [DecidableEq Id]

namespace VClock

def counts (c : VClock Id) (i : Id) : Nat := (c.count i).toNat

/-- Every count is a positive `ptrdiff_t`. -/
structure Counted (c : VClock Id) : Prop where
  positive : ∀ i ∈ c, 0 < c.counts i
  small : ∀ i, c.counts i < 2 ^ 63

/-- A count as `compare` takes it, a `ptrdiff_t`. -/
def signed (c : VClock Id) (i : Id) : Int := (c.count i).toInt64.toInt

/-- No difference that `compare` takes overflows. -/
def Subtracts (c o : VClock Id) : Prop :=
  ∀ k, -2 ^ 63 ≤ c.signed k - o.signed k ∧ c.signed k - o.signed k < 2 ^ 63

section Compare

variable {c o : VClock Id}

theorem count_of_not_mem {i : Id} (unseen : i ∉ c) : c.count i = 0 := by
  rw [count, Finmap.lookup_eq_none.mpr unseen]
  rfl

theorem counts_of_not_mem {i : Id} (unseen : i ∉ c) : c.counts i = 0 := by
  rw [counts, count_of_not_mem unseen]
  rfl

private theorem toInt_diff (subtracts : Subtracts c o) (k : Id) :
    ((c.count k).toInt64 - (o.count k).toInt64).toInt = c.signed k - o.signed k := by
  have bounds := subtracts k
  rw [Int64.toInt_sub]
  exact Int.bmod_eq_of_le (by unfold signed at bounds; omega) (by unfold signed at bounds; omega)

private theorem exists_key_iff {property : Int → Prop} (zero : ¬property 0) :
    (∃ k ∈ c.keys ∪ o.keys, property (c.signed k - o.signed k)) ↔
      ∃ k, property (c.signed k - o.signed k) := by
  constructor
  · rintro ⟨k, -, holds⟩
    exact ⟨k, holds⟩
  · rintro ⟨k, holds⟩
    refine ⟨k, ?_, holds⟩
    by_contra unseen
    rw [Finset.mem_union, not_or, Finmap.mem_keys, Finmap.mem_keys] at unseen
    rw [signed, signed, count_of_not_mem unseen.1, count_of_not_mem unseen.2, sub_self] at holds
    exact zero holds

private theorem exists_greater (subtracts : Subtracts c o) :
    (∃ k ∈ c.keys ∪ o.keys, (c.count k).toInt64 - (o.count k).toInt64 > 0) ↔
      ¬ c.signed ≤ o.signed := by
  simp only [gt_iff_lt, Int64.lt_iff_toInt_lt, toInt_diff subtracts, Int64.toInt_zero]
  rw [@exists_key_iff _ _ c o (fun d => 0 < d) (lt_irrefl 0), Pi.le_def, not_forall]
  simp only [Int.sub_pos, not_le]

private theorem exists_less (subtracts : Subtracts c o) :
    (∃ k ∈ c.keys ∪ o.keys, (c.count k).toInt64 - (o.count k).toInt64 < 0) ↔
      ¬ o.signed ≤ c.signed := by
  simp only [Int64.lt_iff_toInt_lt, toInt_diff subtracts, Int64.toInt_zero]
  rw [@exists_key_iff _ _ c o (fun d => d < 0) (lt_irrefl 0), Pi.le_def, not_forall]
  refine exists_congr fun k => ?_
  rw [not_le]
  omega

private theorem compare_eq (subtracts : Subtracts c o) {l g : Bool}
    (less : ¬o.signed ≤ c.signed ↔ l = true) (greater : ¬c.signed ≤ o.signed ↔ g = true) :
    c.compare o = if l && g then 0 else if l then -1 else if g then 1 else 0 := by
  have someLess : decide (∃ k ∈ c.keys ∪ o.keys,
      (c.count k).toInt64 - (o.count k).toInt64 < 0) = l :=
    Bool.eq_iff_iff.mpr (decide_eq_true_iff.trans ((exists_less subtracts).trans less))
  have someGreater : decide (∃ k ∈ c.keys ∪ o.keys,
      (c.count k).toInt64 - (o.count k).toInt64 > 0) = g :=
    Bool.eq_iff_iff.mpr (decide_eq_true_iff.trans ((exists_greater subtracts).trans greater))
  rw [compare]
  simp only [someLess, someGreater]

/-- `compare` is the verdict on the counts as `ptrdiff_t`. -/
theorem compare_eq_signed (subtracts : Subtracts c o) :
    c.compare o = verdict c.signed o.signed := by
  by_cases below : c.signed ≤ o.signed
  · by_cases above : o.signed ≤ c.signed
    · rw [verdict_of_not (not_lt_of_ge above) (not_lt_of_ge below)]
      exact compare_eq (l := false) (g := false) subtracts (by simp [above]) (by simp [below])
    · rw [verdict_of_lt (lt_of_le_not_ge below above)]
      exact compare_eq (l := true) (g := false) subtracts (by simp [above]) (by simp [below])
  · by_cases above : o.signed ≤ c.signed
    · rw [verdict_of_gt (lt_of_le_not_ge above below)]
      exact compare_eq (l := false) (g := true) subtracts (by simp [above]) (by simp [below])
    · rw [verdict_of_not_le below above]
      exact compare_eq (l := true) (g := true) subtracts (by simp [above]) (by simp [below])

theorem signed_of_lt {k : Id} (small : c.counts k < 2 ^ 63) : c.signed k = c.counts k := by
  rw [counts] at small
  rw [signed, counts, ← UInt64.ofNat_toNat (x := c.count k), UInt64.toInt64_ofNat',
    Int64.toInt_ofNat_of_lt small, UInt64.ofNat_toNat]

theorem signed_le_iff (left : c.Counted) (right : o.Counted) :
    c.signed ≤ o.signed ↔ c.counts ≤ o.counts := by
  simp only [Pi.le_def, signed_of_lt (left.small _), signed_of_lt (right.small _), Int.ofNat_le]

theorem Counted.subtracts (left : c.Counted) (right : o.Counted) : Subtracts c o := by
  intro k
  have mine := left.small k
  have other := right.small k
  rw [signed_of_lt mine, signed_of_lt other]
  omega

theorem compare_of_lt (left : c.Counted) (right : o.Counted) (below : c.counts < o.counts) :
    c.compare o = -1 := by
  rw [compare_eq_signed (left.subtracts right), verdict_eq_neg_one_iff, lt_iff_le_not_ge,
    signed_le_iff left right, signed_le_iff right left]
  exact lt_iff_le_not_ge.mp below

theorem compare_of_gt (left : c.Counted) (right : o.Counted) (above : o.counts < c.counts) :
    c.compare o = 1 := by
  rw [compare_eq_signed (left.subtracts right), verdict_eq_one_iff, lt_iff_le_not_ge,
    signed_le_iff left right, signed_le_iff right left]
  exact lt_iff_le_not_ge.mp above

theorem compare_of_eq (left : c.Counted) (right : o.Counted) (same : c.counts = o.counts) :
    c.compare o = 0 := by
  rw [compare_eq_signed (left.subtracts right)]
  exact verdict_of_not (not_lt_of_ge ((signed_le_iff right left).mpr same.ge))
    (not_lt_of_ge ((signed_le_iff left right).mpr same.le))

theorem compare_of_concurrent (left : c.Counted) (right : o.Counted)
    (concurrent : Concurrent c.counts o.counts) : c.compare o = 0 := by
  rw [compare_eq_signed (left.subtracts right)]
  exact verdict_of_not_le (mt (signed_le_iff left right).mp concurrent.1)
    (mt (signed_le_iff right left).mp concurrent.2)

/-- `compare` tells which of two clocks is newer, if one is. -/
theorem compare_ne_zero_iff (left : c.Counted) (right : o.Counted) :
    c.compare o ≠ 0 ↔ c.counts < o.counts ∨ o.counts < c.counts := by
  constructor
  · intro ordered
    rcases trichotomy c.counts o.counts with below | above | same | concurrent
    · exact .inl below
    · exact .inr above
    · exact absurd (compare_of_eq left right same) ordered
    · exact absurd (compare_of_concurrent left right concurrent) ordered
  · rintro (below | above)
    · rw [compare_of_lt left right below]
      decide
    · rw [compare_of_gt left right above]
      decide

/-- A clock is what it counts of which ids. -/
theorem ext_counts (seen : ∀ i, i ∈ c ↔ i ∈ o) (same : c.counts = o.counts) : c = o := by
  refine Finmap.ext_lookup fun i => ?_
  have value : c.count i = o.count i := UInt64.toNat_inj.mp (congrFun same i)
  by_cases member : i ∈ c
  · obtain ⟨v, found⟩ := Finmap.mem_iff.mp member
    obtain ⟨w, other⟩ := Finmap.mem_iff.mp ((seen i).mp member)
    rw [count, count, found, other] at value
    rw [found, other]
    exact congrArg some value
  · rw [Finmap.lookup_eq_none.mpr member,
      Finmap.lookup_eq_none.mpr fun other => member ((seen i).mpr other)]

theorem eq_of_counts_eq (left : c.Counted) (right : o.Counted) (same : c.counts = o.counts) :
    c = o := by
  have seen : ∀ {c o : VClock Id}, c.Counted → c.counts = o.counts → ∀ i, i ∈ c → i ∈ o := by
    intro c o counted same i member
    by_contra unseen
    have positive := counted.positive i member
    rw [same, counts_of_not_mem unseen] at positive
    exact lt_irrefl _ positive
  exact ext_counts (fun i => ⟨seen left same i, seen right same.symm i⟩) same

theorem compare_self (c : VClock Id) : c.compare c = 0 := by
  have same : Subtracts c c := fun k => by
    rw [sub_self]
    decide
  rw [compare_eq_signed same, verdict_of_not (lt_irrefl _) (lt_irrefl _)]

/-- `operator <=` is the order of the version vectors. -/
theorem le_iff (left : c.Counted) (right : o.Counted) :
    c.le o = true ↔ c.counts ≤ o.counts := by
  rw [le, identical, Bool.or_eq_true, beq_iff_eq, decide_eq_true_iff]
  rcases trichotomy c.counts o.counts with below | above | same | concurrent
  · exact iff_of_true (.inl (compare_of_lt left right below)) below.le
  · refine iff_of_false ?_ (not_le_of_gt above)
    rintro (newer | rfl)
    · rw [compare_of_gt left right above] at newer
      cases newer
    · exact lt_irrefl _ above
  · exact iff_of_true (.inr (eq_of_counts_eq left right same)) same.le
  · refine iff_of_false ?_ concurrent.1
    rintro (newer | rfl)
    · rw [compare_of_concurrent left right concurrent] at newer
      cases newer
    · exact concurrent.1 le_rfl

end Compare

section Add

variable (c o : VClock Id)

theorem counts_insert (i other : Id) (v : UInt64) :
    counts (c.insert i v) other = if other = i then v.toNat else c.counts other := by
  rw [counts, count_insert]
  split <;> rfl

private theorem counts_foldl (entries : List (Sigma fun _ : Id => UInt64))
    (distinct : entries.NodupKeys) (i : Id) :
    counts (entries.foldl (fun c e => raise c e.1 e.2) c) i =
      max (c.counts i) ((entries.dlookup i).getD 0).toNat ∧
    (i ∈ entries.foldl (fun c e => raise c e.1 e.2) c ↔
      i ∈ c ∨ (entries.dlookup i).isSome) := by
  induction entries generalizing c with
  | nil => simp
  | cons e entries ih =>
      obtain ⟨k, v⟩ := e
      rw [List.nodupKeys_cons] at distinct
      obtain ⟨count, member⟩ := ih (raise c k v) distinct.2
      rw [List.foldl_cons]
      refine ⟨count.trans ?_, member.trans ?_⟩
      · rw [raise, counts_insert, toNat_max]
        by_cases here : i = k
        · subst here
          rw [List.dlookup_eq_none.mpr distinct.1, if_pos rfl, List.dlookup_cons_eq]
          rw [counts]
          simp
        · rw [if_neg here, List.dlookup_cons_ne _ _ here]
      · rw [raise, Finmap.mem_insert]
        by_cases here : i = k
        · subst here
          simp
        · rw [List.dlookup_cons_ne _ _ here]
          simp [here]

private theorem add_toFinmap (a : AList fun _ : Id => UInt64) :
    c.add a.toFinmap = a.entries.foldl (fun c e => raise c e.1 e.2) c := rfl

/-- `operator +=` is the join of the version vectors. -/
theorem counts_add : (c.add o).counts = c.counts ⊔ o.counts := by
  induction o using Finmap.induction_on with
  | H a =>
      funext i
      exact (counts_foldl c a.entries a.nodupKeys i).1

theorem mem_add {i : Id} : i ∈ c.add o ↔ i ∈ c ∨ i ∈ o := by
  induction o using Finmap.induction_on with
  | H a =>
      have seen : (a.entries.dlookup i).isSome ↔ i ∈ AList.toFinmap a := AList.lookup_isSome
      rw [add_toFinmap, (counts_foldl c a.entries a.nodupKeys i).2, seen]

variable {c o}

/-- Nothing is added exactly if the clock counts of each id at least as much. -/
theorem add_eq_self_iff : c.add o = c ↔ ∀ i ∈ o, i ∈ c ∧ o.counts i ≤ c.counts i := by
  constructor
  · intro same i member
    have seen := (mem_add c o).mpr (.inr member)
    have most := congrFun (counts_add c o) i
    rw [same] at seen most
    exact ⟨seen, le_sup_right.trans most.ge⟩
  · intro within
    refine ext_counts (fun i => ?_) ?_
    · rw [mem_add]
      exact ⟨fun either => either.elim id fun other => (within i other).1, .inl⟩
    · rw [counts_add, sup_eq_left]
      intro i
      by_cases member : i ∈ o
      · exact (within i member).2
      · rw [counts_of_not_mem member]
        exact Nat.zero_le _

theorem Counted.add (left : c.Counted) (right : o.Counted) : (c.add o).Counted where
  positive i member := by
    rw [counts_add, Pi.sup_apply]
    rcases (mem_add c o).mp member with mine | other
    · exact lt_of_lt_of_le (left.positive i mine) (le_max_left ..)
    · exact lt_of_lt_of_le (right.positive i other) (le_max_right ..)
  small i := by
    rw [counts_add, Pi.sup_apply]
    exact max_lt (left.small i) (right.small i)

theorem add_eq_left (left : c.Counted) (right : o.Counted) (below : o.counts ≤ c.counts) :
    c.add o = c :=
  eq_of_counts_eq (left.add right) left ((counts_add c o).trans (sup_eq_left.mpr below))

theorem add_eq_right (left : c.Counted) (right : o.Counted) (below : c.counts ≤ o.counts) :
    c.add o = o :=
  eq_of_counts_eq (left.add right) right ((counts_add c o).trans (sup_eq_right.mpr below))

end Add

end VClock

def TrackedVClock.joined (t o : TrackedVClock Id) : TrackedVClock Id :=
  { t with c := t.c.add o.c }

section Tracked

variable {t o : TrackedVClock Id} (mine : t.i ∈ t.c) (other : o.i ∈ o.c)

theorem not_empty {c : VClock Id} {i : Id} (seen : i ∈ c) : (!c.empty) = true := by
  have some? : c ≠ ∅ := by
    rintro rfl
    exact Finmap.notMem_empty seen
  simp [VClock.empty, some?]

include mine other

theorem TrackedVClock.add_eq : t.add o = .ok (t.joined o) := by
  have kept : (t.c.add o.c).has t.i = true :=
    decide_eq_true ((VClock.mem_add ..).mpr (.inl mine))
  simp only [TrackedVClock.add, not_empty other, require_true, ok_bind, kept, contract_true,
    pure_ok]
  rfl

theorem TrackedVClock.compare_eq : t.compare o = .ok (t.c.compare o.c) := by
  simp only [TrackedVClock.compare, not_empty other, require_true, ok_bind, VClock.has,
    decide_eq_true mine, contract_true, pure_ok]

theorem TrackedVClock.identical_eq : t.identical o = .ok (decide (t.c = o.c)) := by
  simp only [TrackedVClock.identical, not_empty other, require_true, ok_bind, VClock.has,
    decide_eq_true mine, contract_true, pure_ok, VClock.identical]

theorem TrackedVClock.le_eq : t.le o = .ok (t.c.le o.c) := by
  simp only [TrackedVClock.le, not_empty other, require_true, ok_bind, VClock.has,
    decide_eq_true mine, contract_true, pure_ok]

end Tracked

theorem TrackedVClock.own_ofClock (i : Id) (c : VClock Id) :
    (TrackedVClock.ofClock i c).i ∈ (TrackedVClock.ofClock i c).c := by
  change i ∈ if c.has i then c else c.insert i 1
  split
  · exact of_decide_eq_true ‹_›
  · exact (Finmap.mem_insert ..).mpr (.inl rfl)

section Increment

variable {t : TrackedVClock Id}

theorem TrackedVClock.counts_increment (room : t.c.counts t.i + 1 < 2 ^ 63) :
    t.increment.c.counts = tick t.c.counts t.i := by
  funext other
  rw [TrackedVClock.increment, VClock.counts_insert, tick_apply]
  split
  · rw [VClock.counts] at *
    rw [UInt64.toNat_add, UInt64.toNat_one, Nat.mod_eq_of_lt (by omega)]
  · rfl

theorem TrackedVClock.counted_increment (counted : t.c.Counted)
    (room : t.c.counts t.i + 1 < 2 ^ 63) : t.increment.c.Counted where
  positive other member := by
    rw [counts_increment room, tick_apply]
    split
    · exact Nat.succ_pos _
    · rename_i different
      rcases (Finmap.mem_insert ..).mp member with same | before
      · exact absurd same different
      · exact counted.positive other before
  small other := by
    rw [counts_increment room, tick_apply]
    split
    · exact room
    · exact counted.small other

end Increment

/-- A clock whose counts are right, with its own id. -/
structure TrackedVClock.Formed (t : TrackedVClock Id) : Prop where
  counted : t.c.Counted
  own : t.i ∈ t.c

section Formed

variable {t o : TrackedVClock Id}

theorem TrackedVClock.counts_new (i j : Id) :
    (TrackedVClock.new i).c.counts j = if j = i then 1 else 0 := by
  by_cases same : j = i
  · subst same
    rw [if_pos rfl, VClock.counts, VClock.count, TrackedVClock.new, Finmap.lookup_singleton_eq]
    rfl
  · rw [if_neg same]
    exact VClock.counts_of_not_mem fun member => same ((Finmap.mem_singleton ..).mp member)

theorem TrackedVClock.Formed.new (i : Id) : (TrackedVClock.new i).Formed where
  counted := {
    positive := fun other member => by
      rw [TrackedVClock.counts_new, if_pos ((Finmap.mem_singleton ..).mp member)]
      exact Nat.one_pos
    small := fun other => by
      rw [TrackedVClock.counts_new]
      split <;> decide }
  own := (Finmap.mem_singleton ..).mpr rfl

theorem TrackedVClock.Formed.joined (mine : t.Formed) (other : o.Formed) : (t.joined o).Formed where
  counted := mine.counted.add other.counted
  own := (VClock.mem_add ..).mpr (.inl mine.own)

theorem TrackedVClock.Formed.increment (mine : t.Formed) (room : t.c.counts t.i + 1 < 2 ^ 63) :
    t.increment.Formed where
  counted := t.counted_increment mine.counted room
  own := (Finmap.mem_insert ..).mpr (.inl rfl)

end Formed

end Firestr.Util
