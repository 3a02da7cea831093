import Mathlib.Data.Nat.Digits.Lemmas

/-! Natural numbers as ASCII decimal text. Reading a numeral gives its number
back, and a numeral is made of digits only. -/

set_option autoImplicit false

namespace Firestr.Library.Decimal

def digit (n : Nat) : UInt8 := UInt8.ofNat (48 + n)

/-- The digits of a number, most significant first, with no leading zeros. -/
def numeral (n : Nat) : List UInt8 :=
  if n = 0 then [digit 0] else (Nat.digits 10 n).reverse.map digit

def digitValue (c : UInt8) : Option Nat :=
  if 48 ≤ c.toNat ∧ c.toNat ≤ 57 then some (c.toNat - 48) else none

/-- The number that a text of digits stands for, leading zeros included. -/
def natural (text : List UInt8) : Option Nat :=
  if text = [] then none
  else text.foldlM (fun n c => (digitValue c).map (10 * n + ·)) 0

section Digit

variable {n : Nat}

theorem toNat_digit (small : n < 10) : (digit n).toNat = 48 + n := by
  rw [digit, UInt8.toNat_ofNat_of_lt' (show 48 + n < 2 ^ 8 by omega)]

theorem digitValue_digit (small : n < 10) : digitValue (digit n) = some n := by
  rw [digitValue, toNat_digit small, if_pos (by omega), Nat.add_sub_cancel_left]

end Digit

private theorem foldlM_digits (digits : List Nat) (small : ∀ d ∈ digits, d < 10) (start : Nat) :
    (digits.map digit).foldlM (fun n c => (digitValue c).map (10 * n + ·)) start =
      some (digits.foldl (fun n d => 10 * n + d) start) := by
  induction digits generalizing start with
  | nil => rfl
  | cons d rest ih =>
      have first := digitValue_digit (small d List.mem_cons_self)
      rw [List.map_cons, List.foldlM_cons, first]
      exact ih (fun other member => small other (.tail _ member)) _

theorem numeral_ne_nil (n : Nat) : numeral n ≠ [] := by
  rw [numeral]
  split
  · exact List.cons_ne_nil _ _
  · rename_i positive
    intro empty
    rw [List.map_eq_nil_iff, List.reverse_eq_nil_iff, Nat.digits_eq_nil_iff_eq_zero] at empty
    exact positive empty

theorem mem_numeral {n : Nat} {c : UInt8} (member : c ∈ numeral n) :
    48 ≤ c.toNat ∧ c.toNat ≤ 57 := by
  have bounds : ∀ d < 10, 48 ≤ (digit d).toNat ∧ (digit d).toNat ≤ 57 := by
    intro d small
    rw [toNat_digit small]
    omega
  rw [numeral] at member
  split at member
  · rw [List.mem_singleton.mp member]
    exact bounds 0 (by decide)
  · obtain ⟨d, inDigits, rfl⟩ := List.mem_map.mp member
    exact bounds d (Nat.digits_lt_base (by decide) (List.mem_reverse.mp inDigits))

theorem natural_numeral (n : Nat) : natural (numeral n) = some n := by
  rw [natural, if_neg (numeral_ne_nil n), numeral]
  split
  · rename_i zero
    subst zero
    rfl
  · have small : ∀ d ∈ (Nat.digits 10 n).reverse, d < 10 := fun d member =>
      Nat.digits_lt_base (by decide) (List.mem_reverse.mp member)
    have folded : (Nat.digits 10 n).foldr (fun d n => 10 * n + d) 0 = n := by
      conv => rhs; rw [← Nat.ofDigits_digits 10 n, Nat.ofDigits_eq_foldr]
      congr 1
      funext d n
      exact Nat.add_comm ..
    rw [foldlM_digits _ small, List.foldl_reverse, folded]

end Firestr.Library.Decimal
