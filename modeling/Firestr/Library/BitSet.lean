import Mathlib.Tactic.Common

/-! Bit sets kept as lists of booleans, and how many of their bits are set. -/

set_option autoImplicit false

namespace Firestr.Library.BitSet

variable {bits : List Bool} {index : Nat}

theorem getD_set (inside : index < bits.length) (other : Nat) :
    (bits.set index true).getD other false = (decide (index = other) || bits.getD other false) := by
  rw [List.getD_eq_getElem?_getD, List.getElem?_set, List.getD_eq_getElem?_getD]
  by_cases here : index = other
  · simp [here, here ▸ inside]
  · simp [here]

theorem count_set (inside : index < bits.length) (clear : bits.getD index false = false) :
    (bits.set index true).count true = bits.count true + 1 := by
  have bit : bits[index] = false := by
    simpa [List.getD_eq_getElem?_getD, inside] using clear
  rw [List.count_set inside]
  simp [bit]

theorem count_le_of_below {bound : Nat}
    (below : ∀ index, bits.getD index false = true → index < bound) :
    bits.count true ≤ bound := by
  induction bits generalizing bound with
  | nil => simp
  | cons bit rest ih =>
      cases bound with
      | zero =>
          have clear : ∀ index, rest.getD index false = true → index < 0 := fun index set =>
            absurd (below (index + 1) (by simpa using set)) (Nat.not_lt_zero _)
          have first : bit = false := by
            cases bit with
            | false => rfl
            | true => exact absurd (below 0 rfl) (Nat.not_lt_zero _)
          simpa [first] using ih clear
      | succ bound =>
          have shifted : ∀ index, rest.getD index false = true → index < bound :=
            fun index set => Nat.lt_of_succ_lt_succ (below (index + 1) (by simpa using set))
          have later := ih shifted
          cases bit <;> simp <;> omega

theorem count_eq_length_iff :
    bits.count true = bits.length ↔ ∀ index < bits.length, bits.getD index false = true := by
  rw [List.count_eq_length]
  constructor
  · intro all index inside
    rw [List.getD_eq_getElem?_getD, List.getElem?_eq_getElem inside, Option.getD_some]
    exact (all _ (List.getElem_mem inside)).symm
  · intro all bit member
    obtain ⟨index, inside, rfl⟩ := List.getElem_of_mem member
    simpa [List.getD_eq_getElem?_getD, inside] using (all index inside).symm

theorem countP_sub {Item : Type} {wide narrow : Item → Bool}
    (subset : ∀ item, narrow item = true → wide item = true) (items : List Item) :
    items.countP (fun item => wide item && !narrow item) + items.countP narrow =
      items.countP wide := by
  induction items with
  | nil => rfl
  | cons item rest ih =>
      have here := subset item
      simp only [List.countP_cons]
      cases narrowHere : narrow item with
      | false =>
          simp only [Bool.not_false, Bool.and_true, Bool.false_eq_true, if_false, Nat.add_zero]
          omega
      | true =>
          rw [here narrowHere]
          simp only [Bool.not_true, Bool.and_false, Bool.false_eq_true, if_false, if_true]
          omega

theorem countP_range {length : Nat} (same : bits.length = length) :
    (List.range length).countP (fun index => bits.getD index false) = bits.count true := by
  subst same
  induction bits with
  | nil => rfl
  | cons bit rest ih =>
      rw [List.length_cons, List.range_succ_eq_map, List.countP_cons, List.countP_map]
      have shifted : ((fun index => (bit :: rest).getD index false) ∘ Nat.succ) =
          fun index => rest.getD index false := rfl
      rw [shifted, ih]
      cases bit <;> simp

end Firestr.Library.BitSet
