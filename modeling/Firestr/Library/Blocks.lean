import Mathlib.Tactic.Common
import Mathlib.Algebra.Order.Floor.Div

/-! Lists cut into blocks of one size, the last of which may be shorter. -/

set_option autoImplicit false

namespace Firestr.Library.Blocks

/-- How many blocks of `size` items a list of `length` items is cut into. -/
def blockCount (size length : Nat) : Nat := (length + size - 1) / size

variable {Item : Type}

/-- The block number `index` of `items`. -/
def block (size : Nat) (items : List Item) (index : Nat) : List Item :=
  (items.drop (index * size)).take size

variable {size length index : Nat} {items : List Item}

theorem lt_blockCount_iff (positive : 0 < size) :
    index < blockCount size length ↔ index * size < length := by
  rw [blockCount, Nat.lt_iff_add_one_le, Nat.le_div_iff_mul_le positive, Nat.add_mul, Nat.one_mul]
  omega

theorem blockCount_pos (positive : 0 < size) (nonempty : 0 < length) :
    0 < blockCount size length := by
  rw [lt_blockCount_iff positive]
  omega

theorem blockCount_le (positive : 0 < size) {count : Nat} (fits : length ≤ count * size) :
    blockCount size length ≤ count := by
  rw [blockCount, Nat.div_le_iff_le_mul_add_pred positive]
  have commuted : count * size = size * count := Nat.mul_comm ..
  omega

theorem length_block : (block size items index).length = min size (items.length - index * size) := by
  simp [block]

theorem length_block_of_lt (positive : 0 < size)
    (more : index + 1 < blockCount size items.length) :
    (block size items index).length = size := by
  have inside := (lt_blockCount_iff positive).mp more
  rw [Nat.add_mul, Nat.one_mul] at inside
  rw [length_block]
  omega

theorem add_length_block_last (positive : 0 < size)
    (last : index + 1 = blockCount size items.length) :
    index * size + (block size items index).length = items.length := by
  have inside := (lt_blockCount_iff positive).mp
    (show index < blockCount size items.length by omega)
  have outside := not_congr (lt_blockCount_iff positive) |>.mp
    (show ¬ index + 1 < blockCount size items.length by omega)
  rw [Nat.add_mul, Nat.one_mul] at outside
  rw [length_block]
  omega

theorem length_block_le : (block size items index).length ≤ size := by
  rw [length_block]
  omega

theorem getElem?_block {offset : Nat} (inside : offset < size) :
    (block size items index)[offset]? = items[index * size + offset]? := by
  rw [block, List.getElem?_take, if_pos inside, List.getElem?_drop]

theorem div_lt_blockCount (positive : 0 < size) {position : Nat} (inside : position < length) :
    position / size < blockCount size length := by
  rw [lt_blockCount_iff positive]
  exact lt_of_le_of_lt (Nat.div_mul_le_self ..) inside

theorem length_le_blockCount_mul (positive : 0 < size) : length ≤ blockCount size length * size :=
  Nat.not_lt.mp fun outside => lt_irrefl _ ((lt_blockCount_iff positive).mpr outside)

theorem flatMap_block_range (count : Nat) :
    (List.range count).flatMap (block size items) = items.take (count * size) := by
  induction count with
  | zero => rw [Nat.zero_mul, List.take_zero, List.range_zero, List.flatMap_nil]
  | succ count ih =>
      rw [List.range_succ, List.flatMap_append, ih, List.flatMap_singleton, Nat.succ_mul,
        List.take_add, block]

/-- The blocks of a list make it up. -/
theorem flatMap_block (positive : 0 < size) :
    (List.range (blockCount size items.length)).flatMap (block size items) = items := by
  rw [flatMap_block_range, List.take_of_length_le (length_le_blockCount_mul positive)]

end Firestr.Library.Blocks
