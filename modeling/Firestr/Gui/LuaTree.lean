import Firestr.Gui.LuaState

/-! Lua values without their references: trees of booleans, numbers, strings and
tables, when a value on the stack is such a tree, and when two trees are equal. -/

set_option autoImplicit false

namespace Firestr.Gui

open Firestr.Util Firestr.Library.Assoc

/-- A value that is built from booleans, numbers, strings and tables. A table
lists its fields in the order it is walked. -/
inductive LuaTree (Double : Type) where
  | boolean (v : Bool)
  | integer (v : Int64)
  | number (v : Double)
  | string (v : Bytes)
  | table (fields : List (LuaValue Double × LuaTree Double))

variable {Double : Type}

section Holds

variable (tables : List (LuaTable Double)) (low : Nat)

mutual

/-- The value is the tree, and the tables in it are numbered from `low` on. -/
def Holds : LuaValue Double → LuaTree Double → Prop
  | x, .boolean v => x = .boolean v
  | x, .integer v => x = .integer v
  | x, .number v => x = .number v
  | x, .string v => x = .string v
  | x, .table fields =>
    ∃ id t, x = .table id ∧ low ≤ id ∧ tables[id]? = some t ∧ HoldsFields t.entries fields

def HoldsFields :
    List (LuaValue Double × LuaValue Double) → List (LuaValue Double × LuaTree Double) → Prop
  | entries, [] => entries = []
  | entries, (key, field) :: fields =>
    ∃ x rest, entries = (key, x) :: rest ∧ Holds x field ∧ HoldsFields rest fields

end

end Holds

variable {tables tables' : List (LuaTable Double)} {low low' : Nat}

theorem holdsFields_iff {entries : List (LuaValue Double × LuaValue Double)}
    {fields : List (LuaValue Double × LuaTree Double)} :
    HoldsFields tables low entries fields ↔
      List.Forall₂ (fun e f => e.1 = f.1 ∧ Holds tables low e.2 f.2) entries fields := by
  induction fields generalizing entries with
  | nil =>
      unfold HoldsFields
      exact ⟨fun none => none ▸ .nil, fun pairs => List.forall₂_nil_right_iff.mp pairs⟩
  | cons field fields ih =>
      obtain ⟨key, field⟩ := field
      unfold HoldsFields
      constructor
      · rintro ⟨x, rest, rfl, here, later⟩
        exact .cons ⟨rfl, here⟩ (ih.mp later)
      · intro pairs
        cases pairs with
        | @cons e _ rest _ pair later =>
            obtain ⟨rfl, here⟩ := pair
            exact ⟨e.2, rest, rfl, here, ih.mpr later⟩

mutual

/-- A tree stays where its tables stay. -/
theorem Holds.mono {x : LuaValue Double} {t : LuaTree Double} (holds : Holds tables low x t)
    (lower : low' ≤ low)
    (kept : ∀ id t, low ≤ id → tables[id]? = some t → tables'[id]? = some t) :
    Holds tables' low' x t := by
  cases t with
  | boolean v => exact holds
  | integer v => exact holds
  | number v => exact holds
  | string v => exact holds
  | table fields =>
      unfold Holds at holds ⊢
      obtain ⟨id, t, value, inside, there, holds⟩ := holds
      exact ⟨id, t, value, lower.trans inside, kept id t inside there, holds.mono lower kept⟩

theorem HoldsFields.mono {entries : List (LuaValue Double × LuaValue Double)}
    {fields : List (LuaValue Double × LuaTree Double)}
    (holds : HoldsFields tables low entries fields) (lower : low' ≤ low)
    (kept : ∀ id t, low ≤ id → tables[id]? = some t → tables'[id]? = some t) :
    HoldsFields tables' low' entries fields := by
  cases fields with
  | nil => exact holds
  | cons field fields =>
      obtain ⟨key, field⟩ := field
      unfold HoldsFields at holds ⊢
      obtain ⟨x, rest, whole, here, later⟩ := holds
      exact ⟨x, rest, whole, here.mono lower kept, later.mono lower kept⟩

end

theorem HoldsFields.assign [DecidableEq Double]
    {entries : List (LuaValue Double × LuaValue Double)}
    {fields : List (LuaValue Double × LuaTree Double)} {key x : LuaValue Double}
    {t : LuaTree Double} (holds : HoldsFields tables low entries fields)
    (item : Holds tables low x t) :
    HoldsFields tables low (assign entries key x) (assign fields key t) :=
  holdsFields_iff.mpr (forall₂_assign (holdsFields_iff.mp holds) item)

theorem Holds.ne_nil {x : LuaValue Double} {t : LuaTree Double} (holds : Holds tables low x t) :
    x ≠ .nil := by
  cases t with
  | table fields =>
      unfold Holds at holds
      obtain ⟨id, -, rfl, -⟩ := holds
      rintro ⟨⟩
  | boolean v | integer v | number v | string v =>
      unfold Holds at holds
      rw [holds]
      rintro ⟨⟩

end Firestr.Gui
