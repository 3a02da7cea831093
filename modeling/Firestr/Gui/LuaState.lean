import Firestr.Library.Effects
import Firestr.Util.Mencode
import Mathlib.Data.List.TakeWhile

/-! The part of the Lua C API the scripts' values go through: the stack of one C
function, and the tables and script messages the values on it refer to. -/

set_option autoImplicit false

namespace Firestr.Gui

open Firestr.Util Firestr.Library.Assoc Firestr.Library.Effects

/-- `TValue`. Tables, objects and functions are references. -/
inductive LuaValue (Double : Type) where
  | nil
  | boolean (v : Bool)
  | integer (v : Int64)
  | number (v : Double)
  | string (v : Bytes)
  | table (id : Nat)
  | userdata (id : Nat)
  | function (id : Nat)
  deriving DecidableEq

/-- How Lua converts its numbers: `luaO_str2num` and `lua_tostring`, the cast of
an integer and of a real, `numisinteger` and `luai_numisnan`. -/
structure LuaNumbers (Double : Type) where
  ofText : Bytes → Option Double
  ofText_nil : ofText [] = none
  toText : Double → Bytes
  ofInteger : Int64 → Double
  truncate : Double → Option Int64
  asInteger : Double → Option Int64
  isNaN : Double → Bool

variable {Double Item : Type}

/-- What a `const char*` of the bytes shows: up to the first NUL. -/
def cString (v : Bytes) : Bytes := v.takeWhile (· ≠ 0)

theorem cString_eq_self_iff {v : Bytes} : cString v = v ↔ 0 ∉ v := by
  rw [cString, List.takeWhile_eq_self_iff]
  constructor
  · intro all member
    simpa using all 0 member
  · intro absent b member
    exact decide_eq_true fun same => absent (same ▸ member)

theorem zero_notMem_cString (v : Bytes) : 0 ∉ cString v := by
  intro member
  simpa using List.mem_takeWhile_imp member

section Values

variable (numbers : LuaNumbers Double)

/-- `lua_isinteger` with `lua_tointeger`. -/
def LuaValue.toInteger : LuaValue Double → Option Int64
  | .integer v => some v
  | _ => none

/-- `lua_isnumber` with `lua_tonumber`. -/
def LuaValue.toNumber : LuaValue Double → Option Double
  | .integer v => some (numbers.ofInteger v)
  | .number v => some v
  | .string v => numbers.ofText v
  | _ => none

/-- `lua_isstring` with `lua_tostring`. -/
def LuaValue.toText : LuaValue Double → Option Bytes
  | .integer v => some (intText v)
  | .number v => some (numbers.toText v)
  | .string v => some v
  | _ => none

/-- `luaG_typeerror` names the type of a value so. -/
def LuaValue.typeName : LuaValue Double → String
  | .nil => "nil"
  | .boolean _ => "boolean"
  | .integer _ => "number"
  | .number _ => "number"
  | .string _ => "string"
  | .table _ => "table"
  | .userdata _ => "userdata"
  | .function _ => "function"

/-- What a table may file a value under. -/
abbrev LuaKey (Double : Type) : Type := { key : LuaValue Double // key ≠ .nil }

/-- The key `luaH_newkey` files a value under. -/
def LuaValue.tableKey : LuaValue Double → Outcome (LuaKey Double)
  | .nil => .error (.thrown "table index is nil")
  | .number v =>
    if numbers.isNaN v then .error (.thrown "table index is NaN")
    else
      match numbers.asInteger v with
      | some k => .ok ⟨.integer k, by simp⟩
      | none => .ok ⟨.number v, by simp⟩
  | .boolean v => .ok ⟨.boolean v, by simp⟩
  | .integer v => .ok ⟨.integer v, by simp⟩
  | .string v => .ok ⟨.string v, by simp⟩
  | .table id => .ok ⟨.table id, by simp⟩
  | .userdata id => .ok ⟨.userdata id, by simp⟩
  | .function id => .ok ⟨.function id, by simp⟩

end Values

/-- `Table`, with its entries in the order `lua_next` walks them. -/
structure LuaTable (Double : Type) where
  entries : List (LuaValue Double × LuaValue Double)
  distinct : (entries.map (·.1)).Nodup
  filed : ∀ e ∈ entries, e.1 ≠ .nil

namespace LuaTable

variable [DecidableEq Double]

def empty : LuaTable Double := ⟨[], .nil, by simp⟩

/-- The table with a value under a key, which `nil` takes out. -/
def set (t : LuaTable Double) (key : LuaKey Double) (v : LuaValue Double) : LuaTable Double :=
  if v = .nil then
    ⟨unassign t.entries key, nodup_keys_unassign t.distinct,
      fun e member => t.filed e (mem_of_mem_unassign member)⟩
  else
    ⟨assign t.entries key v, nodup_keys_assign t.distinct, fun e member =>
      (eq_or_mem_of_mem_assign member).elim (fun new => new ▸ key.2) fun old => t.filed e old.1⟩

theorem set_entries {t : LuaTable Double} {key : LuaKey Double} {v : LuaValue Double}
    (present : v ≠ .nil) : (t.set key v).entries = assign t.entries key.1 v := by
  rw [set, if_neg present]

/-- `luaH_next`: the entry after a key, the first one after `nil`, and `none` for
a key that is not there. -/
def next (t : LuaTable Double) (key : LuaValue Double) :
    Option (Option (LuaValue Double × LuaValue Double)) :=
  if key = .nil then some t.entries.head?
  else
    match t.entries.dropWhile fun e => e.1 ≠ key with
    | [] => none
    | _ :: rest => some rest.head?

theorem next_nil (t : LuaTable Double) : t.next .nil = some t.entries.head? := by
  rw [next, if_pos rfl]

theorem next_after {t : LuaTable Double}
    {before rest : List (LuaValue Double × LuaValue Double)} {e : LuaValue Double × LuaValue Double}
    (split : t.entries = before ++ e :: rest) : t.next e.1 = some rest.head? := by
  have filed : e.1 ≠ .nil := t.filed e (by rw [split]; simp)
  have fresh : ∀ other ∈ before, other.1 ≠ e.1 := by
    intro other member same
    have distinct := t.distinct
    rw [split, List.map_append, List.map_cons] at distinct
    exact (List.nodup_append.mp distinct).2.2 other.1 (List.mem_map_of_mem member) e.1
      List.mem_cons_self same
  have dropped : (t.entries.dropWhile fun e' => e'.1 ≠ e.1) = e :: rest := by
    rw [split, List.dropWhile_append_of_pos (by simpa using fresh), List.dropWhile_cons_of_neg]
    simp
  rw [next, if_neg filed, dropped]

end LuaTable

/-- A call of `lua_settable`: its index, and the stack it finds. -/
structure SetTable (Double : Type) where
  table : Int
  stack : List (LuaValue Double)

/-- `lua_State` for one C function: its stack from index 1 up, the slots it may
use, every table, the dictionary of every script message, and the calls of
`lua_settable` so far. -/
structure LuaState (Double : Type) where
  stack : List (LuaValue Double)
  slots : Nat
  tables : List (LuaTable Double)
  messages : List (List (Bytes × Value Double))
  setTables : List (SetTable Double) := []

/-- What a C function does with the state. -/
abbrev Lua (Double Item : Type) : Type := Program (LuaState Double) Fault Item

def LuaState.free (L : LuaState Double) : Nat := L.slots - L.stack.length

/-- `index2addr`: from the bottom for a positive index, and from the top for a
negative one. -/
def LuaState.index2addr (L : LuaState Double) (index : Int) : LuaValue Double :=
  if 0 < index then L.stack.getD (index.toNat - 1) .nil
  else L.stack.getD (L.stack.length - index.natAbs) .nil

/-- Any of `lua_pushnil`, `lua_pushinteger`, `lua_pushnumber` and
`lua_pushstring`. No slot is left beyond those the function may use. -/
def luaPush (v : LuaValue Double) : Lua Double Unit := fun L =>
  if L.stack.length < L.slots then (.ok (), { L with stack := L.stack ++ [v] })
  else (.error .dangling, L)

def luaPop (n : Nat) : Lua Double Unit :=
  Program.modify fun L => { L with stack := L.stack.take (L.stack.length - n) }

def luaGetTop : Lua Double Int := fun L => (.ok L.stack.length, L)

def luaNewTable [DecidableEq Double] : Lua Double Unit := fun L =>
  luaPush (.table L.tables.length) { L with tables := L.tables ++ [LuaTable.empty] }

/-- `lua_tostring`, which leaves the text of a number in its place. -/
def luaToString (numbers : LuaNumbers Double) (index : Nat) : Lua Double (Option Bytes) := fun L =>
  match (L.index2addr index).toText numbers with
  | some text => (.ok (some text), { L with stack := L.stack.set (index - 1) (.string text) })
  | none => (.ok none, L)

/-- `lua_next`: the key on top makes room for the next one and its value. -/
def luaNext [DecidableEq Double] (index : Int) : Lua Double Bool := fun L =>
  match L.index2addr index with
  | .table id =>
    match L.tables[id]? with
    | some t =>
      match t.next (L.index2addr (-1)) with
      | some (some (key, v)) =>
        (do
          luaPop 1
          luaPush key
          luaPush v
          pure true : Lua Double Bool) L
      | some none =>
        (do
          luaPop 1
          pure false : Lua Double Bool) L
      | none => (.error (.thrown "invalid key to 'next'"), L)
    | none => (.error .dangling, L)
  | _ => (.error .dangling, L)

/-- `luaV_settable` on a value without metamethods. -/
def luaVSetTable [DecidableEq Double] (numbers : LuaNumbers Double)
    (t key v : LuaValue Double) : Lua Double Unit := fun L =>
  match t with
  | .table id =>
    match L.tables[id]?, key.tableKey numbers with
    | some entries, .ok key => (.ok (), { L with tables := L.tables.set id (entries.set key v) })
    | some _, .error fault => (.error fault, L)
    | none, _ => (.error .dangling, L)
  | t => (.error (.thrown ("attempt to index a " ++ t.typeName ++ " value")), L)

/-- `lua_settable`, which takes its key and its value off the stack. -/
def luaSetTable [DecidableEq Double] (numbers : LuaNumbers Double) (index : Int) :
    Lua Double Unit := do
  Program.modify fun L => { L with setTables := L.setTables ++ [⟨index, L.stack⟩] }
  let L ← Program.get
  if L.stack.length < 2 then Program.lift (.error .dangling)
  else do
    luaVSetTable numbers (L.index2addr index) (L.index2addr (-2)) (L.index2addr (-1))
    luaPop 2

/-- A call of a C function in a frame of its own, with `free` slots over its
arguments. It leaves its results. -/
def luaCall (free : Nat) (function : Lua Double Nat) (arguments : List (LuaValue Double)) :
    Lua Double (List (LuaValue Double)) := fun L =>
  match function { L with stack := arguments, slots := arguments.length + free } with
  | (.ok results, last) =>
    (.ok (last.stack.drop (last.stack.length - results)),
      { last with stack := L.stack, slots := L.slots })
  | (.error fault, last) => (.error fault, { last with stack := L.stack, slots := L.slots })

section Index

variable {L : LuaState Double} {base rest : List (LuaValue Double)} {key v : LuaValue Double}

theorem index2addr_of_split {index : Int} (stack : L.stack = base ++ v :: rest)
    (spot : index = base.length + 1) : L.index2addr index = v := by
  have above : (0 : Int) < index := by omega
  have position : index.toNat - 1 = base.length := by omega
  rw [LuaState.index2addr, if_pos above, position, stack]
  simp

theorem index2addr_top (stack : L.stack = base ++ [v]) : L.index2addr (-1) = v := by
  rw [LuaState.index2addr, if_neg (by decide), stack]
  simp

theorem index2addr_under_top (stack : L.stack = base ++ [key, v]) : L.index2addr (-2) = key := by
  rw [LuaState.index2addr, if_neg (by decide), stack]
  simp

end Index

theorem luaPush_ok_iff {v : LuaValue Double} {L L' : LuaState Double} :
    luaPush v L = (.ok (), L') ↔
      L.stack.length < L.slots ∧ L' = { L with stack := L.stack ++ [v] } := by
  unfold luaPush
  split
  · rename_i room
    constructor
    · rintro ⟨⟩
      exact ⟨room, rfl⟩
    · rintro ⟨-, rfl⟩
      rfl
  · rename_i full
    constructor
    · rintro ⟨⟩
    · intro pushed
      exact absurd pushed.1 full

theorem luaPush_ok {v : LuaValue Double} {L : LuaState Double} (room : 1 ≤ L.free) :
    luaPush v L = (.ok (), { L with stack := L.stack ++ [v] }) :=
  luaPush_ok_iff.mpr ⟨Nat.lt_of_sub_pos room, rfl⟩

theorem luaNewTable_ok [DecidableEq Double] {L : LuaState Double} (room : 1 ≤ L.free) :
    luaNewTable L = (.ok (), { L with
      stack := L.stack ++ [.table L.tables.length]
      tables := L.tables ++ [LuaTable.empty] }) :=
  luaPush_ok_iff.mpr ⟨Nat.lt_of_sub_pos room, rfl⟩

theorem luaPop_one {base : List (LuaValue Double)} {top : LuaValue Double} {L : LuaState Double}
    (stack : L.stack = base ++ [top]) : luaPop 1 L = (.ok (), { L with stack := base }) := by
  unfold luaPop
  rw [Program.modify_apply, stack, List.length_append, List.length_singleton, Nat.add_sub_cancel,
    List.take_left]

section Next

variable [DecidableEq Double] {L L' : LuaState Double} {index : Int} {id : Nat}
  {t : LuaTable Double} {base : List (LuaValue Double)} {top key v : LuaValue Double}

theorem luaNext_more_iff {more : Bool} (stack : L.stack = base ++ [top])
    (table : L.index2addr index = .table id) (there : L.tables[id]? = some t)
    (next : t.next top = some (some (key, v))) :
    luaNext index L = (.ok more, L') ↔
      more = true ∧ base.length + 2 ≤ L.slots ∧ L' = { L with stack := base ++ [key, v] } := by
  have entry : luaNext index L =
      (do
        luaPop 1
        luaPush key
        luaPush v
        pure true : Lua Double Bool) L := by
    unfold luaNext
    simp only [table, there, index2addr_top stack, next]
  rw [entry, Program.bind_ok (luaPop_one stack)]
  constructor
  · intro success
    obtain ⟨⟨⟩, keyed, pushKey, success⟩ := Program.bind_ok_iff.mp success
    obtain ⟨⟨⟩, last, pushValue, ended⟩ := Program.bind_ok_iff.mp success
    obtain ⟨-, rfl⟩ := luaPush_ok_iff.mp pushKey
    obtain ⟨room, rfl⟩ := luaPush_ok_iff.mp pushValue
    cases ended
    simp only [List.length_append, List.length_singleton] at room
    refine ⟨rfl, by omega, ?_⟩
    rw [List.append_assoc]
    rfl
  · rintro ⟨rfl, room, rfl⟩
    have first : ({ L with stack := base } : LuaState Double).stack.length < L.slots := by
      simp only
      omega
    have second : (base ++ [key]).length < L.slots := by
      rw [List.length_append, List.length_singleton]
      omega
    rw [Program.bind_ok (luaPush_ok_iff.mpr ⟨first, rfl⟩),
      Program.bind_ok (luaPush_ok_iff.mpr ⟨second, rfl⟩), Program.pure_apply, List.append_assoc]
    rfl

theorem luaNext_done (stack : L.stack = base ++ [top]) (table : L.index2addr index = .table id)
    (there : L.tables[id]? = some t) (next : t.next top = some none) :
    luaNext index L = (.ok false, { L with stack := base }) := by
  have none : luaNext index L =
      (do
        luaPop 1
        pure false : Lua Double Bool) L := by
    unfold luaNext
    simp only [table, there, index2addr_top stack, next]
  rw [none, Program.bind_ok (luaPop_one stack)]
  rfl

end Next

section SetTable

variable [DecidableEq Double] {numbers : LuaNumbers Double} {L L' : LuaState Double} {index : Int}

/-- What is set takes its key and its value from the stack, and was set in a table. -/
theorem luaSetTable_ok {result : Unit} (success : luaSetTable numbers index L = (.ok result, L')) :
    L'.stack = L.stack.take (L.stack.length - 2) ∧ L'.slots = L.slots ∧
      ∃ id, L.index2addr index = .table id := by
  unfold luaSetTable at success
  rw [Program.modify_bind, Program.get_bind] at success
  split at success
  · cases success
  · obtain ⟨⟨⟩, middle, set, popped⟩ := Program.bind_ok_iff.mp success
    unfold luaVSetTable at set
    split at set
    · rename_i id table
      split at set
      · cases set
        cases popped
        exact ⟨rfl, rfl, id, table⟩
      · cases set
      · cases set
    · cases set

theorem luaSetTable_table {base : List (LuaValue Double)} {key : LuaKey Double}
    {v : LuaValue Double} {id : Nat} {t : LuaTable Double} (stack : L.stack = base ++ [key.1, v])
    (found : L.index2addr index = .table id) (there : L.tables[id]? = some t)
    (filed : key.1.tableKey numbers = .ok key) :
    luaSetTable numbers index L =
      (.ok (), { L with
        stack := base
        tables := L.tables.set id (t.set key v)
        setTables := L.setTables ++ [⟨index, L.stack⟩] }) := by
  have enough : ¬L.stack.length < 2 := by rw [stack]; simp
  have top : L.index2addr (-1) = v := by
    refine @index2addr_top _ L (base ++ [key.1]) v ?_
    rw [stack, List.append_assoc, List.singleton_append]
  have under : L.index2addr (-2) = key.1 := index2addr_under_top stack
  have popped : L.stack.take (L.stack.length - 2) = base := by rw [stack]; simp
  unfold luaSetTable
  rw [Program.modify_bind, Program.get_bind, if_neg enough]
  refine Program.bind_ok_iff.mpr ⟨(), { L with
    tables := L.tables.set id (t.set key v)
    setTables := L.setTables ++ [⟨index, L.stack⟩] }, ?_, ?_⟩
  · change luaVSetTable numbers (L.index2addr index) (L.index2addr (-2)) (L.index2addr (-1)) _ = _
    rw [found, under, top]
    unfold luaVSetTable
    simp only [there, filed]
  · unfold luaPop
    rw [Program.modify_apply, popped]

end SetTable

end Firestr.Gui
