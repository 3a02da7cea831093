import Firestr.Gui.LuaTree
import Firestr.Gui.LuaValues

/-! What `push_value` does to the stack. Every constructor that it has no push
for takes the table it is put into off the stack with its key. -/

set_option autoImplicit false

namespace Firestr.Gui

open Firestr.Util Firestr.Library.Assoc Firestr.Library.Effects

variable {Double : Type}

/-- `is_array`. -/
def isArray : Value Double → Bool
  | .array _ => true
  | _ => false

mutual

/-- The values that `push_value` has a push for, down to the last element. -/
def pushable : Value Double → Bool
  | .int _ => true
  | .real _ => true
  | .bytes _ => true
  | .dict v => pushableEntries v
  | .array v => pushableElements v
  | .empty => false
  | .bool _ => false
  | .size _ => false

def pushableEntries : List (Bytes × Value Double) → Bool
  | [] => true
  | (key, v) :: rest => (key ≠ arrayK || isArray v) && pushable v && pushableEntries rest

def pushableElements : List (Value Double) → Bool
  | [] => true
  | v :: rest => pushable v && pushableElements rest

end

mutual

/-- The most slots that are in use at one time while the value is pushed. -/
def slotsOf : Value Double → Nat
  | .dict v => slotsOfEntries v + 1
  | .array v => slotsOfElements v + 1
  | _ => 1

/-- The slots over those of the table. -/
def slotsOfEntries : List (Bytes × Value Double) → Nat
  | [] => 0
  | (key, v) :: rest =>
    max (if key = arrayK then slotsOf v - 1 else slotsOf v + 1) (slotsOfEntries rest)

def slotsOfElements : List (Value Double) → Nat
  | [] => 0
  | v :: rest => max (slotsOf v + 1) (slotsOfElements rest)

end

section Shown

variable [DecidableEq Double]

mutual

/-- What a value that can be pushed is on the stack. -/
def shown : Value Double → LuaTree Double
  | .int v => .integer v
  | .real v => .number v
  | .bytes v => .string (cString v)
  | .dict v => .table (shownEntries v [])
  | .array v => .table (shownElements 1 v [])
  | .empty => .table []
  | .bool _ => .table []
  | .size _ => .table []

def shownEntries : List (Bytes × Value Double) → List (LuaValue Double × LuaTree Double) →
    List (LuaValue Double × LuaTree Double)
  | [], fields => fields
  | (key, v) :: rest, fields =>
    if key = arrayK then
      (match v with
        | .array a => shownEntries rest (shownElements 1 a fields)
        | _ => fields)
    else shownEntries rest (assign fields (.string (cString key)) (shown v))

def shownElements (i : Int32) : List (Value Double) → List (LuaValue Double × LuaTree Double) →
    List (LuaValue Double × LuaTree Double)
  | [], fields => fields
  | v :: rest, fields =>
    shownElements (i + 1) rest (assign fields (.integer i.toInt64) (shown v))

end

end Shown

/-- The call finds a key and a value of its own over its table. -/
def SetTable.Own (call : SetTable Double) : Prop :=
  ∃ base id key v, call.stack = base ++ [.table id, key, v] ∧ call.table = base.length + 1

/-- What is filled in between two states are the table `id`, with calls of its own,
and new tables. -/
structure Filled (id : Nat) (L L' : LuaState Double) : Prop where
  stack : L'.stack = L.stack
  slots : L'.slots = L.slots
  messages : L'.messages = L.messages
  tables : ∀ (other : Nat) (t : LuaTable Double), other ≠ id →
    L.tables[other]? = some t → L'.tables[other]? = some t
  setTables : ∃ calls, L'.setTables = L.setTables ++ calls ∧ ∀ call ∈ calls, call.Own

/-- One value more is on the stack, and everything else is as it was. -/
structure Pushed (L L' : LuaState Double) (x : LuaValue Double) : Prop where
  stack : L'.stack = L.stack ++ [x]
  slots : L'.slots = L.slots
  messages : L'.messages = L.messages
  tables : ∀ (id : Nat) (t : LuaTable Double), L.tables[id]? = some t → L'.tables[id]? = some t
  setTables : ∃ calls, L'.setTables = L.setTables ++ calls ∧ ∀ call ∈ calls, call.Own

theorem Filled.refl (id : Nat) (L : LuaState Double) : Filled id L L :=
  ⟨rfl, rfl, rfl, fun _ _ _ there => there, [], (List.append_nil _).symm, by simp⟩

theorem Filled.trans {id : Nat} {L L' L'' : LuaState Double} (first : Filled id L L')
    (second : Filled id L' L'') : Filled id L L'' := by
  obtain ⟨calls, before, own⟩ := first.setTables
  obtain ⟨calls', after, own'⟩ := second.setTables
  refine ⟨second.stack.trans first.stack, second.slots.trans first.slots,
    second.messages.trans first.messages, fun other t different there =>
      second.tables other t different (first.tables other t different there), calls ++ calls',
    ?_, fun call member => ?_⟩
  · rw [after, before, List.append_assoc]
  · rcases List.mem_append.mp member with member | member
    · exact own call member
    · exact own' call member

theorem Filled.free {id : Nat} {L L' : LuaState Double} (filled : Filled id L L') :
    L'.free = L.free := by
  unfold LuaState.free
  rw [filled.stack, filled.slots]

theorem Pushed.scalar (L : LuaState Double) (x : LuaValue Double) :
    Pushed L { L with stack := L.stack ++ [x] } x :=
  ⟨rfl, rfl, rfl, fun _ _ there => there, [], (List.append_nil _).symm, by simp⟩

section Equations

variable [DecidableEq Double] {context : LuaContext Double} {table : Int} {key : Bytes}
  {v : Value Double} {rest : List (Bytes × Value Double)}
  {fields : List (LuaValue Double × LuaTree Double)}

theorem pushEntries_array (a : List (Value Double)) :
    pushEntries context table ((arrayK, .array a) :: rest) =
      (do
        pushElements context table 1 a
        pushEntries context table rest) := by
  rw [pushEntries, if_pos rfl]

theorem pushEntries_not_array (other : isArray v = false) :
    pushEntries context table ((arrayK, v) :: rest) =
      Program.lift (.error (.thrown "value is not an array")) := by
  cases v with
  | array a => cases other
  | empty | bool _ | int _ | size _ | real _ | bytes _ | dict _ => rw [pushEntries, if_pos rfl]; simp

theorem pushEntries_field (ordinary : key ≠ arrayK) :
    pushEntries context table ((key, v) :: rest) =
      (do
        luaPush (.string (cString key))
        pushValue context v
        luaSetTable context.numbers table
        pushEntries context table rest) := by
  cases v <;> simp only [pushEntries, if_neg ordinary]

theorem shownEntries_array (a : List (Value Double)) :
    shownEntries ((arrayK, .array a) :: rest) fields =
      shownEntries rest (shownElements 1 a fields) := by
  rw [shownEntries, if_pos rfl]

theorem shownEntries_field (ordinary : key ≠ arrayK) :
    shownEntries ((key, v) :: rest) fields =
      shownEntries rest (assign fields (.string (cString key)) (shown v)) := by
  cases v <;> simp only [shownEntries, if_neg ordinary]

end Equations

section Push

variable [DecidableEq Double] {context : LuaContext Double}

private theorem field_filled {base : List (LuaValue Double)} {id : Nat} {t : LuaTable Double}
    {fields : List (LuaValue Double × LuaTree Double)} {x : LuaValue Double} {item : LuaTree Double}
    {L L' : LuaState Double} (key : LuaKey Double) (stack : L.stack = base ++ [.table id])
    (there : L.tables[id]? = some t) (holds : HoldsFields L.tables (id + 1) t.entries fields)
    (filed : key.1.tableKey context.numbers = .ok key)
    (pushed : Pushed { L with stack := L.stack ++ [key.1] } L' x)
    (held : Holds L'.tables L.tables.length x item) :
    ∃ t' last, luaSetTable context.numbers (base.length + 1) L' = (.ok (), last) ∧
      Filled id L last ∧ last.tables[id]? = some t' ∧
      HoldsFields last.tables (id + 1) t'.entries (assign fields key.1 item) := by
  have stack' : L'.stack = (base ++ [.table id]) ++ [key.1, x] := by
    rw [pushed.stack, stack, List.append_assoc]
    rfl
  have split : L'.stack = base ++ .table id :: [key.1, x] := by
    rw [stack', List.append_assoc]
    rfl
  have bound : id < L.tables.length := (List.getElem?_eq_some_iff.mp there).1
  have there' : L'.tables[id]? = some t := pushed.tables id t there
  have bound' : id < L'.tables.length := (List.getElem?_eq_some_iff.mp there').1
  have others : ∀ (other : Nat) (u : LuaTable Double), other ≠ id →
      L'.tables[other]? = some u → (L'.tables.set id (t.set key x))[other]? = some u := by
    intro other u different found
    rw [List.getElem?_set_ne (Ne.symm different)]
    exact found
  refine ⟨t.set key x, _, luaSetTable_table stack' (index2addr_of_split split rfl) there' filed,
    ⟨stack.symm, pushed.slots, pushed.messages, ?_, ?_⟩, ?_, ?_⟩
  · intro other u different found
    exact others other u different (pushed.tables other u found)
  · obtain ⟨calls, before, own⟩ := pushed.setTables
    refine ⟨calls ++ [⟨base.length + 1, L'.stack⟩], ?_, fun call member => ?_⟩
    · rw [← List.append_assoc]
      exact congrArg (· ++ _) before
    · rcases List.mem_append.mp member with earlier | last
      · exact own call earlier
      · rw [List.mem_singleton.mp last]
        exact ⟨base, id, key.1, x, split, rfl⟩
  · exact List.getElem?_set_self bound'
  · rw [LuaTable.set_entries held.ne_nil]
    refine HoldsFields.assign (holds.mono le_rfl fun other u above found => ?_)
      (held.mono bound fun other u above found => ?_)
    · exact others other u (by omega) (pushed.tables other u found)
    · exact others other u (by omega) found

/-- The state in which the loops start. -/
def LuaState.opened (L : LuaState Double) : LuaState Double :=
  { L with
    stack := L.stack ++ [.table L.tables.length]
    tables := L.tables ++ [LuaTable.empty] }

omit [DecidableEq Double] in
private theorem table_pushed {L L' : LuaState Double} {t : LuaTable Double}
    {fields : List (LuaValue Double × LuaTree Double)}
    (filled : Filled L.tables.length L.opened L') (there : L'.tables[L.tables.length]? = some t)
    (holds : HoldsFields L'.tables (L.tables.length + 1) t.entries fields) :
    Pushed L L' (.table L.tables.length) ∧
      Holds L'.tables L.tables.length (.table L.tables.length) (.table fields) := by
  constructor
  · refine ⟨filled.stack, filled.slots, filled.messages, fun id u found => ?_, filled.setTables⟩
    have bound : id < L.tables.length := (List.getElem?_eq_some_iff.mp found).1
    exact filled.tables id u bound.ne ((List.getElem?_append_left bound).trans found)
  · unfold Holds
    exact ⟨_, t, rfl, le_rfl, there, holds.mono (Nat.le_succ _) fun _ _ _ found => found⟩

mutual

/-- A value with a push for each of its parts is pushed as one value, if it has
the slots for it. -/
theorem pushValue_pushed {v : Value Double} {L : LuaState Double} (fine : pushable v = true)
    (room : slotsOf v ≤ L.free) :
    ∃ x L', pushValue context v L = (.ok (), L') ∧ Pushed L L' x ∧
      Holds L'.tables L.tables.length x (shown v) := by
  cases v with
  | empty => cases fine
  | bool v => cases fine
  | size v => cases fine
  | int v => exact ⟨_, _, luaPush_ok room, .scalar L _, rfl⟩
  | real v => exact ⟨_, _, luaPush_ok room, .scalar L _, rfl⟩
  | bytes v => exact ⟨_, _, luaPush_ok room, .scalar L _, rfl⟩
  | dict v =>
      rw [slotsOf] at room
      have start : 1 ≤ L.free := by omega
      have inner : slotsOfEntries v ≤ L.opened.free := by
        simp only [LuaState.free, LuaState.opened, List.length_append, List.length_singleton]
          at room ⊢
        omega
      obtain ⟨t, L', loop, filled, there, holds⟩ :=
        @pushEntries_filled v L.opened L.stack L.tables.length LuaTable.empty [] fine inner rfl
          List.getElem?_concat_length rfl
      refine ⟨_, L', ?_, table_pushed filled there holds⟩
      rw [pushValue, Program.bind_ok (luaNewTable_ok start)]
      refine (congrArg (fun table => pushEntries context table v _) ?_).trans loop
      simp
  | array v =>
      rw [slotsOf] at room
      have start : 1 ≤ L.free := by omega
      have inner : slotsOfElements v ≤ L.opened.free := by
        simp only [LuaState.free, LuaState.opened, List.length_append, List.length_singleton]
          at room ⊢
        omega
      obtain ⟨t, L', loop, filled, there, holds⟩ :=
        @pushElements_filled v 1 L.opened L.stack L.tables.length LuaTable.empty [] fine inner rfl
          List.getElem?_concat_length rfl
      refine ⟨_, L', ?_, table_pushed filled there holds⟩
      rw [pushValue, Program.bind_ok (luaNewTable_ok start)]
      refine (congrArg (fun table => pushElements context table 1 v _) ?_).trans loop
      simp

theorem pushEntries_filled {entries : List (Bytes × Value Double)} {L : LuaState Double}
    {base : List (LuaValue Double)} {id : Nat} {t : LuaTable Double}
    {fields : List (LuaValue Double × LuaTree Double)} (fine : pushableEntries entries = true)
    (room : slotsOfEntries entries ≤ L.free) (stack : L.stack = base ++ [.table id])
    (there : L.tables[id]? = some t) (holds : HoldsFields L.tables (id + 1) t.entries fields) :
    ∃ t' L', pushEntries context (base.length + 1) entries L = (.ok (), L') ∧ Filled id L L' ∧
      L'.tables[id]? = some t' ∧
      HoldsFields L'.tables (id + 1) t'.entries (shownEntries entries fields) := by
  cases entries with
  | nil =>
      exact ⟨t, L, by rw [pushEntries]; rfl, .refl id L, there, by rwa [shownEntries]⟩
  | cons entry rest =>
      obtain ⟨key, v⟩ := entry
      rw [pushableEntries, Bool.and_eq_true, Bool.and_eq_true] at fine
      obtain ⟨⟨part, fineValue⟩, fineRest⟩ := fine
      rw [slotsOfEntries, Nat.max_le] at room
      by_cases special : key = arrayK
      · subst special
        rw [if_pos rfl] at room
        cases v with
        | array a =>
            have inner : slotsOfElements a ≤ L.free := by
              have here := room.1
              rw [slotsOf, Nat.add_sub_cancel] at here
              exact here
            obtain ⟨t', middle, elements, filled, there', holds'⟩ :=
              @pushElements_filled a 1 L base id t fields fineValue inner stack there holds
            obtain ⟨u, final, loop, more, found, all⟩ := @pushEntries_filled rest middle base id t'
              _ fineRest (room.2.trans filled.free.ge) (filled.stack.trans stack) there' holds'
            rw [pushEntries_array, shownEntries_array]
            exact ⟨u, final, (Program.bind_ok elements).trans loop, filled.trans more, found, all⟩
        | empty | bool _ | int _ | size _ | real _ | bytes _ | dict _ =>
            simp [isArray] at part
      · rw [if_neg special] at room
        have start : 1 ≤ L.free := by omega
        have inner : slotsOf v ≤ ({ L with stack := L.stack ++ [.string (cString key)] } :
            LuaState Double).free := by
          have here := room.1
          simp only [LuaState.free, List.length_append, List.length_singleton] at here ⊢
          omega
        obtain ⟨x, middle, push, pushed, held⟩ := pushValue_pushed fineValue inner
        obtain ⟨t', last, set, filled, there', holds'⟩ :=
          field_filled ⟨.string (cString key), by simp⟩ stack there holds rfl pushed held
        obtain ⟨u, final, loop, more, found, all⟩ := @pushEntries_filled rest last base id t'
          _ fineRest (room.2.trans filled.free.ge) (filled.stack.trans stack) there' holds'
        rw [shownEntries_field special]
        refine ⟨u, final, ?_, filled.trans more, found, all⟩
        rw [pushEntries_field special, Program.bind_ok (luaPush_ok start), Program.bind_ok push,
          Program.bind_ok set]
        exact loop

theorem pushElements_filled {elements : List (Value Double)} {i : Int32} {L : LuaState Double}
    {base : List (LuaValue Double)} {id : Nat} {t : LuaTable Double}
    {fields : List (LuaValue Double × LuaTree Double)} (fine : pushableElements elements = true)
    (room : slotsOfElements elements ≤ L.free) (stack : L.stack = base ++ [.table id])
    (there : L.tables[id]? = some t) (holds : HoldsFields L.tables (id + 1) t.entries fields) :
    ∃ t' L', pushElements context (base.length + 1) i elements L = (.ok (), L') ∧
      Filled id L L' ∧ L'.tables[id]? = some t' ∧
      HoldsFields L'.tables (id + 1) t'.entries (shownElements i elements fields) := by
  cases elements with
  | nil =>
      exact ⟨t, L, by rw [pushElements]; rfl, .refl id L, there, by rwa [shownElements]⟩
  | cons v rest =>
      rw [pushableElements, Bool.and_eq_true] at fine
      rw [slotsOfElements, Nat.max_le] at room
      have start : 1 ≤ L.free := by omega
      have inner : slotsOf v ≤ ({ L with stack := L.stack ++ [.integer i.toInt64] } :
          LuaState Double).free := by
        have here := room.1
        simp only [LuaState.free, List.length_append, List.length_singleton] at here ⊢
        omega
      obtain ⟨x, middle, push, pushed, held⟩ := pushValue_pushed fine.1 inner
      obtain ⟨t', last, set, filled, there', holds'⟩ :=
        field_filled ⟨.integer i.toInt64, by simp⟩ stack there holds rfl pushed held
      obtain ⟨u, final, loop, more, found, all⟩ := @pushElements_filled rest (i + 1) last base id t'
        _ fine.2 (room.2.trans filled.free.ge) (filled.stack.trans stack) there' holds'
      refine ⟨u, final, ?_, filled.trans more, found, by rwa [shownElements]⟩
      rw [pushElements, Program.bind_ok (luaPush_ok start), Program.bind_ok push,
        Program.bind_ok set]
      exact loop

end

end Push

end Firestr.Gui
