import Mathlib.Tactic.Common
import Mathlib.Data.Nat.ModEq

/-! Round robin over the indices below `count`, from a start index once round. -/

set_option autoImplicit false

namespace Firestr.Library.RoundRobin

variable {count start : Nat}

theorem succ_mod (steps : Nat) :
    ((start + steps) % count + 1) % count = (start + (steps + 1)) % count := by
  rw [Nat.mod_add_mod, Nat.add_assoc]

/-- The start index is met again after exactly `count` steps. -/
theorem back_at_start_iff (inside : start < count) {steps : Nat} (positive : 0 < steps)
    (bounded : steps ≤ count) : (start + steps) % count = start ↔ steps = count := by
  constructor
  · intro back
    by_contra different
    by_cases wrapped : start + steps < count
    · rw [Nat.mod_eq_of_lt wrapped] at back
      omega
    · rw [Nat.mod_eq_sub_mod (by omega), Nat.mod_eq_of_lt (by omega)] at back
      omega
  · rintro rfl
    rw [Nat.add_mod_right, Nat.mod_eq_of_lt inside]

theorem exists_steps (inside : start < count) {index : Nat} (bounded : index < count) :
    ∃ steps < count, (start + steps) % count = index := by
  by_cases ahead : start ≤ index
  · exact ⟨index - start, by omega, by rw [Nat.add_sub_cancel' ahead, Nat.mod_eq_of_lt bounded]⟩
  · refine ⟨index + count - start, by omega, ?_⟩
    rw [Nat.add_sub_cancel' (by omega), Nat.add_mod_right, Nat.mod_eq_of_lt bounded]

end Firestr.Library.RoundRobin
