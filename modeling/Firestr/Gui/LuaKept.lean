import Firestr.Gui.LuaFields
import Firestr.Gui.LuaShown

/-! The values that come back as they went: when the mencode value of a tree is
pushed as an equal tree. -/

set_option autoImplicit false

namespace Firestr.Gui

open Firestr.Util Firestr.Library.Assoc

variable {Double : Type}

section Same

variable [DecidableEq Double]

mutual

/-- Equal values: the same number, string or boolean, or tables with equal values
under the same keys. -/
def LuaTree.Same : LuaTree Double → LuaTree Double → Prop
  | .boolean v, u => u = .boolean v
  | .integer v, u => u = .integer v
  | .number v, u => u = .number v
  | .string v, u => u = .string v
  | .table fields, u =>
    ∃ others, u = .table others ∧ SameFields fields others ∧
      ∀ key ∈ others.map (·.1), key ∈ fields.map (·.1)

def SameFields :
    List (LuaValue Double × LuaTree Double) → List (LuaValue Double × LuaTree Double) → Prop
  | [], _ => True
  | (key, field) :: rest, others =>
    (∃ other, others.lookup key = some other ∧ field.Same other) ∧ SameFields rest others

end

theorem sameFields_iff {fields others : List (LuaValue Double × LuaTree Double)} :
    SameFields fields others ↔
      ∀ key field, (key, field) ∈ fields →
        ∃ other, others.lookup key = some other ∧ field.Same other := by
  induction fields with
  | nil => simp [SameFields]
  | cons e fields ih =>
      obtain ⟨key, field⟩ := e
      rw [SameFields, ih, forall_mem_cons_iff]

end Same

section Distinct

mutual

/-- No table has a key twice. -/
def LuaTree.Distinct : LuaTree Double → Prop
  | .table fields => (fields.map (·.1)).Nodup ∧ DistinctFields fields
  | _ => True

def DistinctFields : List (LuaValue Double × LuaTree Double) → Prop
  | [] => True
  | (_, field) :: rest => field.Distinct ∧ DistinctFields rest

end

variable {tables : List (LuaTable Double)} {low : Nat}

theorem HoldsFields.keys {entries : List (LuaValue Double × LuaValue Double)}
    {fields : List (LuaValue Double × LuaTree Double)}
    (holds : HoldsFields tables low entries fields) :
    entries.map (·.1) = fields.map (·.1) := by
  induction fields generalizing entries with
  | nil =>
      unfold HoldsFields at holds
      rw [holds]
      rfl
  | cons e fields ih =>
      obtain ⟨key, field⟩ := e
      unfold HoldsFields at holds
      obtain ⟨x, rest, rfl, -, later⟩ := holds
      rw [List.map_cons, List.map_cons, ih later]

mutual

theorem Holds.distinct {x : LuaValue Double} {t : LuaTree Double} (holds : Holds tables low x t) :
    t.Distinct := by
  cases t with
  | boolean v | integer v | number v | string v => trivial
  | table fields =>
      unfold Holds at holds
      obtain ⟨id, t, -, -, -, holds⟩ := holds
      exact ⟨holds.keys ▸ t.distinct, holds.distinct⟩

theorem HoldsFields.distinct {entries : List (LuaValue Double × LuaValue Double)}
    {fields : List (LuaValue Double × LuaTree Double)}
    (holds : HoldsFields tables low entries fields) : DistinctFields fields := by
  cases fields with
  | nil => trivial
  | cons e fields =>
      obtain ⟨key, field⟩ := e
      unfold HoldsFields at holds
      obtain ⟨x, rest, -, here, later⟩ := holds
      exact ⟨here.distinct, later.distinct⟩

end

end Distinct

section Kept

variable (numbers : LuaNumbers Double)

/-- The keys that come back: texts that are no numerals, have no NUL and are not
the key of the array part, and the integers from 1 on without a gap. -/
structure KeptKeys (keys : List (LuaValue Double)) : Prop where
  plain : ∀ key ∈ keys, (∃ i, key = .integer i) ∨
    ∃ k, key = .string k ∧ numbers.ofText k = none ∧ 0 ∉ k ∧ k ≠ arrayK
  indexes : ∃ n < 2 ^ 31, ∀ i : Int64, .integer i ∈ keys ↔ 1 ≤ i.toInt ∧ i.toInt ≤ (n : Nat)

mutual

/-- The values that come back. -/
def LuaTree.Kept : LuaTree Double → Prop
  | .boolean _ => False
  | .integer _ => True
  | .number _ => True
  | .string v => numbers.ofText v = none ∧ 0 ∉ v
  | .table fields => KeptKeys numbers (fields.map (·.1)) ∧ KeptFields fields

def KeptFields : List (LuaValue Double × LuaTree Double) → Prop
  | [] => True
  | (_, field) :: rest => field.Kept ∧ KeptFields rest

end

theorem keptFields_iff {fields : List (LuaValue Double × LuaTree Double)} :
    KeptFields numbers fields ↔ ∀ key field, (key, field) ∈ fields → field.Kept numbers := by
  induction fields with
  | nil => simp [KeptFields]
  | cons e fields ih =>
      obtain ⟨key, field⟩ := e
      rw [KeptFields, ih, forall_mem_cons_iff]

end Kept

end Firestr.Gui
