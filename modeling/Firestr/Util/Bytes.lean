import Mathlib.Tactic.Common

/-! Byte strings and the two buffer operations the code uses on them. -/

set_option autoImplicit false

namespace Firestr.Util

/-- `util::bytes` and `std::string`, both sequences of bytes. -/
abbrev Bytes := List UInt8

instance lawfulBEqBytes : LawfulBEq Bytes := inferInstance

/-- The bytes of an ASCII literal of the source. -/
def ascii (text : String) : Bytes := text.toList.map fun character => character.toNat.toUInt8

/-- `resize` of a vector, string or bitset: cut, or filled up with a default. -/
def resize {Item : Type} (items : List Item) (size : Nat) (fill : Item) : List Item :=
  items.take size ++ List.replicate (size - items.length) fill

/-- `std::copy` of `source` over the items from `spot` on. -/
def copyAt {Item : Type} (items : List Item) (spot : Nat) (source : List Item) : List Item :=
  items.take spot ++ source ++ items.drop (spot + source.length)

section Resize

variable {Item : Type} (items : List Item) (fill : Item)

@[simp] theorem length_resize (size : Nat) : (resize items size fill).length = size := by
  simp [resize]
  omega

theorem resize_of_le {size : Nat} (shorter : size ≤ items.length) :
    resize items size fill = items.take size := by
  simp [resize, Nat.sub_eq_zero_of_le shorter]

@[simp] theorem resize_nil (size : Nat) :
    resize ([] : List Item) size fill = List.replicate size fill := by
  simp [resize]

end Resize

section CopyAt

variable {Item : Type} {items source : List Item} {spot : Nat}

theorem length_copyAt (inside : spot + source.length ≤ items.length) :
    (copyAt items spot source).length = items.length := by
  simp [copyAt]
  omega

theorem getElem?_copyAt (inside : spot + source.length ≤ items.length) (index : Nat) :
    (copyAt items spot source)[index]? =
      if spot ≤ index ∧ index < spot + source.length then source[index - spot]?
      else items[index]? := by
  have start : (items.take spot).length = spot := by simp; omega
  by_cases below : index < spot
  · rw [copyAt, List.append_assoc, List.getElem?_append_left (by omega), List.getElem?_take,
      if_pos below, if_neg (by omega)]
  · rw [copyAt, List.append_assoc, List.getElem?_append_right (by omega), start]
    by_cases within : index < spot + source.length
    · rw [List.getElem?_append_left (by omega), if_pos ⟨by omega, within⟩]
    · rw [List.getElem?_append_right (by omega), List.getElem?_drop, if_neg (by omega)]
      congr 1
      omega

end CopyAt

end Firestr.Util
