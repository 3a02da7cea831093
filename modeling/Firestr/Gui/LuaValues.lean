import Firestr.Gui.LuaState

/-! How the values of a script go into mencode values and come back: `to_value`
and `to_dict`, `push_value`, `push_dict` and `push_array`, and the two functions
of a script message that use them. -/

set_option autoImplicit false

namespace Firestr.Gui

open Firestr.Util Firestr.Library.Assoc Firestr.Library.Decimal Firestr.Library.Effects

/-- The key that an array part is stored under. -/
def arrayK : Bytes := ascii "__a"

/-- The conversions of Lua's numbers, and the order in which an `unordered_map`
is walked. -/
structure LuaContext (Double : Type) where
  numbers : LuaNumbers Double
  walk : List (Bytes × Value Double) → List (Bytes × Value Double)
  walk_perm : ∀ d, (walk d).Perm d

/-- Lua where every real is a whole number. -/
def wholeContext : LuaContext Nat where
  numbers := {
    ofText := natural
    ofText_nil := rfl
    toText := numeral
    ofInteger := fun v => v.toInt.toNat
    truncate := fun v => if v < 2 ^ 63 then some (Int64.ofNat v) else none
    asInteger := fun v => if v < 2 ^ 63 then some (Int64.ofNat v) else none
    isNaN := fun _ => false }
  walk := id
  walk_perm := fun _ => .rfl

variable {Double : Type}

section Read

variable (context : LuaContext Double)

/-- The index and the text that `to_dict` makes of a key. -/
def extractKey (key : LuaValue Double) : Outcome (Int64 × Bytes) :=
  match key.toInteger with
  | some ik => .ok (ik, [])
  | none =>
    match key.toNumber context.numbers with
    | some v =>
      match context.numbers.truncate v with
      | some ik => .ok (ik, [])
      | none => .error .dangling
    | none =>
      match key.toText context.numbers with
      | some text => .ok (-1, cString text)
      | none => .error .dangling

/-- The integers, numbers and strings, in this order. -/
def scalarValue (v : LuaValue Double) : Option (Value Double) :=
  match v.toInteger with
  | some i => some (.int i)
  | none =>
    match v.toNumber context.numbers with
    | some x => some (.real x)
    | none => (v.toText context.numbers).map fun text => .bytes (cString text)

/-- Lua's arrays start with 1. -/
def position (ik : Int64) : Int := if ik ≠ 0 then ik.toInt - 1 else ik.toInt

/-- `(*a)[ik] = v` after the array has grown to hold it. -/
def setElement (a : List (Value Double)) (ik : Int64) (v : Value Double) :
    Outcome (List (Value Double)) :=
  let a := if a.length ≤ position ik then resize a ((position ik).toNat + 1) .empty else a
  if position ik < 0 then .error .dangling else .ok (a.set (position ik).toNat v)

/-- The entry goes into the array part under its index, or under its text. -/
def insertEntry (d : List (Bytes × Value Double)) (ik : Int64) (key : Bytes) (v : Value Double) :
    Outcome (List (Bytes × Value Double)) :=
  if ik ≠ -1 then do
    let a ← ((d.lookup arrayK).getD (.array [])).asArray
    let a ← setElement a ik v
    pure (assign d arrayK (.array a))
  else pure (assign d key v)

/-- The value on top of the stack. A table is read by `inner`. -/
def extractValue (inner : Int → Lua Double (List (Bytes × Value Double))) :
    Lua Double (Option (Value Double)) := do
  let L ← Program.get
  match scalarValue context (L.index2addr (-1)), L.index2addr (-1) with
  | some v, _ => pure (some v)
  | none, .table _ => do
    let table ← luaGetTop
    let d ← inner table
    pure (some (.dict d))
  | none, _ => pure none

/-- `to_dict` with its loop as a parameter. -/
def toDictWith (loop : Int → List (Bytes × Value Double) →
    Lua Double (List (Bytes × Value Double))) (table : Int) :
    Lua Double (List (Bytes × Value Double)) := do
  luaPush .nil
  let d ← loop table []
  pure (context.walk d)

variable [DecidableEq Double]

/-- The loop of `to_dict`, with a key on top of the stack. A table that holds
itself makes it call itself without end. -/
def toDictLoop : Nat → Int → List (Bytes × Value Double) →
    Lua Double (List (Bytes × Value Double))
  | 0, _, _ => Program.lift (.error .diverged)
  | fuel + 1, table, d => do
    let more ← luaNext table
    if more then do
      let L ← Program.get
      let k ← Program.lift (extractKey context (L.index2addr (-2)))
      let v ← extractValue context (toDictWith context (toDictLoop fuel))
      match v with
      | some v => do
        let d ← Program.lift (insertEntry d k.1 k.2 v)
        luaPop 1
        toDictLoop fuel table d
      | none => do
        luaPop 1
        toDictLoop fuel table d
    else pure d

def toDict (fuel : Nat) : Int → Lua Double (List (Bytes × Value Double)) :=
  toDictWith context (toDictLoop context fuel)

def toValue (fuel : Nat) (param : Int) : Lua Double (Value Double) := do
  let L ← Program.get
  match L.index2addr param with
  | .table _ => do
    let d ← toDict context fuel param
    pure (.dict d)
  | .boolean v => pure (.bool v)
  | v => pure ((scalarValue context v).getD (.bool false))

end Read

section Push

variable [DecidableEq Double] (context : LuaContext Double)

mutual

def pushValue : Value Double → Lua Double Unit
  | .int v => luaPush (.integer v)
  | .real v => luaPush (.number v)
  | .bytes v => luaPush (.string (cString v))
  | .dict v => do
    luaNewTable
    let table ← luaGetTop
    pushEntries table v
  | .array v => do
    luaNewTable
    let table ← luaGetTop
    pushElements table 1 v
  | .empty => pure ()
  | .bool _ => pure ()
  | .size _ => pure ()

/-- The loop of `push_dict`. -/
def pushEntries (table : Int) : List (Bytes × Value Double) → Lua Double Unit
  | [] => pure ()
  | (key, v) :: rest =>
    if key = arrayK then
      (match v with
        | .array a => do
          pushElements table 1 a
          pushEntries table rest
        | _ => Program.lift (.error (.thrown "value is not an array")))
    else do
      luaPush (.string (cString key))
      pushValue v
      luaSetTable context.numbers table
      pushEntries table rest

/-- The loop of `push_array`, with its `int` counter. -/
def pushElements (table : Int) (i : Int32) : List (Value Double) → Lua Double Unit
  | [] => pure ()
  | v :: rest => do
    luaPush (.integer i.toInt64)
    pushValue v
    luaSetTable context.numbers table
    pushElements table (i + 1) rest

end

end Push

section ScriptMessage

variable [DecidableEq Double] (context : LuaContext Double)

/-- `Type<script_message*>::get`. -/
def LuaState.message (L : LuaState Double) (index : Int) :
    Option (Nat × List (Bytes × Value Double)) :=
  match L.index2addr index with
  | .userdata id => (L.messages[id]?).map fun r => (id, r)
  | _ => none

def scriptMessageSet (fuel : Nat) : Lua Double Nat := do
  let L ← Program.get
  if L.stack.length ≠ 3 then pure 0
  else
    match L.message 1 with
    | none => pure 0
    | some (id, _) => do
      let text ← luaToString context.numbers 2
      match text.map cString with
      | none => pure 0
      | some key =>
        if key = [] then pure 0
        else do
          let v ← toValue context fuel 3
          Program.modify fun L =>
            { L with messages := L.messages.modify id fun r => assign r key v }
          pure 0

def scriptMessageGet : Lua Double Nat := do
  let L ← Program.get
  if L.stack.length ≠ 2 then do
    luaPush .nil
    pure 1
  else
    match L.message 1 with
    | none => do
      luaPush .nil
      pure 1
    | some (_, r) => do
      let text ← luaToString context.numbers 2
      match text.map cString with
      | none => do
        luaPush .nil
        pure 1
      | some key =>
        match r.lookup key with
        | none => do
          luaPush .nil
          pure 1
        | some v => do
          pushValue context v
          pure 1

end ScriptMessage

end Firestr.Gui
