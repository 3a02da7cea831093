import Mathlib.Tactic.Common
import Mathlib.Data.Nat.Bitwise

/-! Big-endian byte lanes of fixed-width words. A word is the disjunction of
its bytes, each shifted back to the lane it was taken from. -/

set_option autoImplicit false

namespace Firestr.Library.ByteLanes

/-- The byte of `word` at bit `shift`, moved back to that position. -/
def lane (width word shift : Nat) : Nat :=
  (((word >>> shift) &&& 255) % 256) <<< shift % 2 ^ width

theorem lane_testBit (width word shift index : Nat) :
    (lane width word shift).testBit index =
      (decide (shift ≤ index ∧ index < shift + 8 ∧ index < width) && word.testBit index) := by
  have mask : (255 : Nat) = 2 ^ 8 - 1 := rfl
  have byte : (256 : Nat) = 2 ^ 8 := rfl
  rw [lane, mask, Nat.and_two_pow_sub_one_eq_mod, byte]
  simp only [Nat.testBit_mod_two_pow, Nat.testBit_shiftLeft, Nat.testBit_shiftRight]
  by_cases above : shift ≤ index
  · have same : shift + (index - shift) = index := by omega
    have inside : (index - shift < 8) ↔ (index < shift + 8) := by omega
    rw [same]
    by_cases bounded : index < width <;> simp [above, inside, bounded]
  · simp [above]

theorem testBit_of_width_le {width word index : Nat} (small : word < 2 ^ width)
    (outside : width ≤ index) : word.testBit index = false :=
  Nat.testBit_lt_two_pow (lt_of_lt_of_le small (Nat.pow_le_pow_right (by omega) outside))

theorem lanes16 {word : Nat} (small : word < 2 ^ 16) :
    lane 16 word 8 ||| lane 16 word 0 = word := by
  apply Nat.eq_of_testBit_eq
  intro index
  simp only [Nat.testBit_or, lane_testBit]
  by_cases bounded : index < 16
  · cases word.testBit index <;> simp [bounded]
    omega
  · simp [testBit_of_width_le small (Nat.le_of_not_lt bounded)]

theorem lanes64 {word : Nat} (small : word < 2 ^ 64) :
    lane 64 word 56 ||| lane 64 word 48 ||| lane 64 word 40 ||| lane 64 word 32 |||
      lane 64 word 24 ||| lane 64 word 16 ||| lane 64 word 8 ||| lane 64 word 0 = word := by
  apply Nat.eq_of_testBit_eq
  intro index
  simp only [Nat.testBit_or, lane_testBit]
  by_cases bounded : index < 64
  · cases word.testBit index <;> simp [bounded]
    omega
  · simp [testBit_of_width_le small (Nat.le_of_not_lt bounded)]

private theorem byteAt_eq (word shift : Nat) :
    (word >>> shift) &&& 255 = word / 2 ^ shift % 256 := by
  have mask : (255 : Nat) = 2 ^ 8 - 1 := rfl
  rw [mask, Nat.and_two_pow_sub_one_eq_mod, Nat.shiftRight_eq_div_pow]

/-- Any two bytes are those of a 16-bit word. -/
theorem exists_word16 {a b : Nat} (first : a < 256) (second : b < 256) :
    ∃ word < 2 ^ 16, (word >>> 8) &&& 255 = a ∧ (word >>> 0) &&& 255 = b := by
  refine ⟨a * 256 + b, by omega, ?_⟩
  simp only [byteAt_eq]
  constructor <;> omega

/-- Any eight bytes are those of a 64-bit word. -/
theorem exists_word64 {a b c d e f g h : Nat} (upper : a < 256 ∧ b < 256 ∧ c < 256 ∧ d < 256)
    (lower : e < 256 ∧ f < 256 ∧ g < 256 ∧ h < 256) :
    ∃ word < 2 ^ 64, ((word >>> 56) &&& 255 = a ∧ (word >>> 48) &&& 255 = b ∧
        (word >>> 40) &&& 255 = c ∧ (word >>> 32) &&& 255 = d) ∧
      (word >>> 24) &&& 255 = e ∧ (word >>> 16) &&& 255 = f ∧
        (word >>> 8) &&& 255 = g ∧ (word >>> 0) &&& 255 = h := by
  refine ⟨((((((a * 256 + b) * 256 + c) * 256 + d) * 256 + e) * 256 + f) * 256 + g) * 256 + h,
    by omega, ?_⟩
  simp only [byteAt_eq]
  refine ⟨⟨?_, ?_, ?_, ?_⟩, ?_, ?_, ?_, ?_⟩ <;> omega

end Firestr.Library.ByteLanes
