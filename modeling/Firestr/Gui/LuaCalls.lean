import Firestr.Gui.LuaWrites

/-! The runs of `to_dict` with the writes that each of its calls makes: what they are for a
table that is a tree. -/

set_option autoImplicit false

namespace Firestr.Gui

open Firestr.Util Firestr.Library.Assoc Firestr.Library.Effects

variable {Double : Type}

section Logged

/-- A program beside the writes of the calls of `to_dict` that have ended. -/
abbrev Logged (Double Item : Type) : Type :=
  Program (LuaState Double × List (CallWrites Double)) Fault Item

variable (context : LuaContext Double)

/-- `extractValue` beside the writes. -/
def extractValueLogged (inner : Int → Logged Double (List (Bytes × Value Double))) :
    Logged Double (Option (Value Double)) := do
  let L ← Program.beside Program.get
  match scalarValue context (L.index2addr (-1)), L.index2addr (-1) with
  | some v, _ => pure (some v)
  | none, .table _ => do
    let table ← Program.beside luaGetTop
    let d ← inner table
    pure (some (.dict d))
  | none, _ => pure none

def toDictWithLogged (loop : Int → List (Bytes × Value Double) → CallWrites Double →
    Logged Double (List (Bytes × Value Double))) (table : Int) :
    Logged Double (List (Bytes × Value Double)) := do
  Program.beside (luaPush .nil)
  let d ← loop table [] []
  pure (context.walk d)

variable [DecidableEq Double]

/-- The loop of `to_dict`, after the writes `made`. -/
def toDictLoopLogged : Nat → Int → List (Bytes × Value Double) → CallWrites Double →
    Logged Double (List (Bytes × Value Double))
  | 0, _, _, _ => Program.lift (.error .diverged)
  | fuel + 1, table, d, made => do
    let more ← Program.beside (luaNext table)
    if more then do
      let L ← Program.beside Program.get
      let k ← Program.lift (extractKey context (L.index2addr (-2)))
      let v ← extractValueLogged context (toDictWithLogged context (toDictLoopLogged fuel))
      match v with
      | some v => do
        let w ← Program.lift (writeOf d k.1 k.2)
        let d ← Program.lift (w.store d v)
        Program.beside (luaPop 1)
        toDictLoopLogged fuel table d (made ++ [(L.index2addr (-2), w)])
      | none => do
        Program.beside (luaPop 1)
        toDictLoopLogged fuel table d made
    else do
      Program.record (· ++ [made])
      pure d

def toDictLogged (fuel : Nat) : Int → Logged Double (List (Bytes × Value Double)) :=
  toDictWithLogged context (toDictLoopLogged context fuel)

end Logged

section Erasing

variable {context : LuaContext Double}

theorem extractValueLogged_erases {inner : Int → Logged Double (List (Bytes × Value Double))}
    {plain : Int → Lua Double (List (Bytes × Value Double))}
    (erases : ∀ table, Program.Erases (inner table) (plain table)) :
    Program.Erases (extractValueLogged context inner) (extractValue context plain) := by
  apply Program.Erases.bind (.beside _)
  intro L
  cases scalarValue context (L.index2addr (-1)) with
  | some v => exact .pure _
  | none =>
      cases L.index2addr (-1) with
      | table id =>
          apply Program.Erases.bind (.beside _)
          intro table
          exact (erases table).bind fun d => .pure _
      | nil | boolean _ | integer _ | number _ | string _ | userdata _ | function _ =>
          exact .pure _

theorem toDictWithLogged_erases {table : Int}
    {loop : Int → List (Bytes × Value Double) → CallWrites Double →
      Logged Double (List (Bytes × Value Double))}
    {plain : Int → List (Bytes × Value Double) → Lua Double (List (Bytes × Value Double))}
    (erases : ∀ d made, Program.Erases (loop table d made) (plain table d)) :
    Program.Erases (toDictWithLogged context loop table) (toDictWith context plain table) := by
  apply Program.Erases.bind (.beside _)
  intro pushed
  exact (erases [] []).bind fun d => .pure _

variable [DecidableEq Double]

/-- Without the writes the loop is that of `to_dict`. -/
theorem toDictLoopLogged_erases (fuel : Nat) (table : Int) (d : List (Bytes × Value Double))
    (made : CallWrites Double) :
    Program.Erases (toDictLoopLogged context fuel table d made)
      (toDictLoop context fuel table d) := by
  induction fuel generalizing table d made with
  | zero => exact .lift _
  | succ fuel ih =>
      apply Program.Erases.bind (.beside _)
      intro more
      cases more with
      | false => exact .record (.pure d)
      | true =>
          apply Program.Erases.bind (.beside _)
          intro L
          apply Program.Erases.bind (.lift _)
          intro k
          apply Program.Erases.bind
            (extractValueLogged_erases fun table => toDictWithLogged_erases (ih table))
          intro v
          cases v with
          | none =>
              apply Program.Erases.bind (.beside _)
              intro popped
              exact ih table d made
          | some v =>
              simp only [insertEntry_eq, Program.lift_bind]
              apply Program.Erases.bind (.lift _)
              intro w
              apply Program.Erases.bind (.lift _)
              intro d
              apply Program.Erases.bind (.beside _)
              intro popped
              exact ih table d _

end Erasing

section Writes

variable {context : LuaContext Double}

/-- The writes of each of these calls. -/
def writesOf (context : LuaContext Double)
    (calls : List (List (LuaValue Double × LuaTree Double))) : List (CallWrites Double) :=
  calls.map fun fields => writesFields context fields []

/-- What a reader of tables adds to the writes of a table that is not deeper than its fuel:
those of the calls for each table in it. -/
def LogsTables (context : LuaContext Double) (fuel : Nat)
    (inner : Int → Logged Double (List (Bytes × Value Double))) : Prop :=
  ∀ (fields : List (LuaValue Double × LuaTree Double)) (table : Int) (id : Nat)
    (t : LuaTable Double) (L L' : LuaState Double) (d : List (Bytes × Value Double))
    (log log' : List (CallWrites Double)),
    readDepthFields fields ≤ fuel → Placed L.stack table id → L.tables[id]? = some t →
    SeenFields L.tables t.entries fields → inner table (L, log) = (.ok d, L', log') →
    log'.Perm (log ++ writesOf context (LuaTree.table fields).calls)

private theorem extractValueLogged_scalar
    {inner : Int → Logged Double (List (Bytes × Value Double))} {base : List (LuaValue Double)}
    {x : LuaValue Double} {L : LuaState Double} {log : List (CallWrites Double)}
    (stack : L.stack = base ++ [x]) (scalar : ∀ id, x ≠ .table id) :
    extractValueLogged context inner (L, log) = (.ok (scalarValue context x), L, log) := by
  unfold extractValueLogged
  rw [Program.beside_get_bind, index2addr_top stack]
  cases scalarValue context x with
  | some v => rfl
  | none =>
      cases x with
      | table id => exact absurd rfl (scalar id)
      | nil | boolean _ | integer _ | number _ | string _ | userdata _ | function _ => rfl

theorem extractValueLogged_logs {fuel : Nat}
    {inner : Int → Logged Double (List (Bytes × Value Double))} {base : List (LuaValue Double)}
    {x : LuaValue Double} {field : LuaTree Double} {L L' : LuaState Double}
    {log log' : List (CallWrites Double)} {v : Option (Value Double)}
    (logs : LogsTables context fuel inner) (deep : readDepth field ≤ fuel)
    (stack : L.stack = base ++ [x]) (seen : Seen L.tables x field)
    (success : extractValueLogged context inner (L, log) = (.ok v, L', log')) :
    log'.Perm (log ++ writesOf context field.calls) := by
  cases field with
  | table fields =>
      unfold Seen at seen
      obtain ⟨id, t, rfl, there, seen⟩ := seen
      unfold extractValueLogged at success
      rw [Program.beside_get_bind, index2addr_top stack] at success
      obtain ⟨depth, _, found, success⟩ := Program.beside_bind_ok_iff.mp success
      cases found
      obtain ⟨d, ⟨L₁, log₁⟩, read, ended⟩ := Program.bind_ok_iff.mp success
      cases ended
      exact logs fields _ id t _ _ _ _ _ deep (placed_top stack) there seen read
  | boolean b | integer i | number r | string s =>
      have scalar : ∀ id, x ≠ .table id := by
        rintro id rfl
        unfold Seen at seen
        cases seen
      cases (extractValueLogged_scalar stack scalar).symm.trans success
      simp [LuaTree.calls, writesOf]

variable [DecidableEq Double]

private theorem perm_insert {Item : Type} {log logged nested : List Item}
    (inside : logged.Perm (log ++ nested)) (own : Item) (later : List Item) :
    (logged ++ own :: later).Perm (log ++ own :: (nested ++ later)) := by
  refine (inside.append_right _).trans ?_
  rw [List.append_assoc]
  exact List.perm_middle.append_left log

/-- The loop, from a state with its key on top once the fields before are done. -/
def LoopLogs (context : LuaContext Double) (fuel : Nat) : Prop :=
  ∀ (fields : List (LuaValue Double × LuaTree Double)) (base : List (LuaValue Double))
    (table : Int) (id : Nat) (t : LuaTable Double)
    (done rest : List (LuaValue Double × LuaValue Double)) (L L' : LuaState Double)
    (d d' : List (Bytes × Value Double)) (made : CallWrites Double)
    (log log' : List (CallWrites Double)),
    readDepthFields fields ≤ fuel → Placed base table id → L.stack = base ++ [lastKey done] →
    L.tables[id]? = some t → t.entries = done ++ rest → SeenFields L.tables rest fields →
    toDictLoopLogged context fuel table d made (L, log) = (.ok d', L', log') →
    log'.Perm (log ++ (made ++ writesFields context fields d) ::
      writesOf context (callsFields fields))

private theorem toDictWithLogged_logs {fuel : Nat} (loop : LoopLogs context fuel) :
    LogsTables context fuel (toDictWithLogged context (toDictLoopLogged context fuel)) := by
  intro fields table id t L L' d log log' deep placed there seen success
  unfold toDictWithLogged at success
  obtain ⟨⟨⟩, started, push, success⟩ := Program.beside_bind_ok_iff.mp success
  obtain ⟨-, rfl⟩ := luaPush_ok_iff.mp push
  obtain ⟨found, ⟨L₂, log₂⟩, run, ended⟩ := Program.bind_ok_iff.mp success
  cases ended
  exact loop fields L.stack table id t [] t.entries { L with stack := L.stack ++ [.nil] } _ [] found
    [] _ _ deep placed rfl there rfl seen run

private theorem loopLogs (fuel : Nat) : LoopLogs context fuel := by
  induction fuel with
  | zero =>
      intro fields base table id t done rest L L' d d' made log log' deep
      cases fields with
      | nil => cases deep
      | cons field fields => cases deep
  | succ fuel ih =>
      intro fields base table id t done rest L L' d d' made log log' deep placed stack there split
        seen success
      have next := next_lastKey split
      have found := placed.found stack
      rw [toDictLoopLogged] at success
      obtain ⟨more, started, first, success⟩ := Program.beside_bind_ok_iff.mp success
      cases fields with
      | nil =>
          cases (seen : rest = [])
          cases (luaNext_done stack found there next).symm.trans first
          cases success
          simp [writesFields, callsFields, writesOf]
      | cons field fields =>
          obtain ⟨key, field⟩ := field
          unfold SeenFields at seen
          obtain ⟨x, rest, rfl, here, later⟩ := seen
          rw [readDepthFields, Nat.add_le_add_iff_right, Nat.max_le] at deep
          obtain ⟨rfl, -, rfl⟩ := (luaNext_more_iff stack found there next).mp first
          have under : ({ L with stack := base ++ [key, x] } : LuaState Double).index2addr (-2) =
              key := index2addr_under_top rfl
          have top : base ++ [key, x] = base ++ [key] ++ [x] := by
            rw [List.append_assoc]
            rfl
          have whole : t.entries = done ++ [(key, x)] ++ rest := by
            rw [split, List.append_assoc]
            rfl
          have onTop : base ++ [key] = base ++ [lastKey (done ++ [(key, x)])] := by
            rw [lastKey_concat]
          rw [if_pos rfl, Program.beside_get_bind, under] at success
          obtain ⟨k, _, keyed, success⟩ := Program.bind_ok_iff.mp success
          obtain ⟨extract, rfl⟩ := Program.lift_ok_iff.mp keyed
          obtain ⟨v, ⟨L₂, log₂⟩, read, success⟩ := Program.bind_ok_iff.mp success
          have inside := extractValueLogged_logs (L := { L with stack := base ++ [key, x] })
            (toDictWithLogged_logs ih) deep.1 top here read
          have plain := ((extractValueLogged_erases fun table =>
            toDictWithLogged_erases (toDictLoopLogged_erases fuel table)).ok_iff _).mpr ⟨_, read⟩
          obtain ⟨value, -, rfl⟩ :=
            (extractValue_ok_iff (L := { L with stack := base ++ [key, x] })
              (toDict_reads context fuel) deep.1 top here).mp plain
          have pop := @luaPop_one _ _ _ { L with stack := base ++ [key, x] } top
          have turn := fun d d' made log log' => ih fields base table id t (done ++ [(key, x)]) rest
            { L with stack := base ++ [key] } L' d d' made log log' deep.2 placed onTop there whole
            later
          rw [callsFields, writesOf, List.map_append, ← writesOf, ← writesOf]
          cases v with
          | none =>
              obtain ⟨⟨⟩, popped, drop, success⟩ := Program.beside_bind_ok_iff.mp success
              cases pop.symm.trans drop
              rw [writesFields_skip extract value]
              exact (turn _ _ _ _ _ success).trans (perm_insert inside _ _)
          | some v =>
              obtain ⟨w, _, planned, success⟩ := Program.bind_ok_iff.mp success
              obtain ⟨write, rfl⟩ := Program.lift_ok_iff.mp planned
              obtain ⟨d₁, _, stored, success⟩ := Program.bind_ok_iff.mp success
              obtain ⟨store, rfl⟩ := Program.lift_ok_iff.mp stored
              obtain ⟨⟨⟩, popped, drop, success⟩ := Program.beside_bind_ok_iff.mp success
              cases pop.symm.trans drop
              rw [writesFields_store extract value write store, List.append_cons made]
              exact (turn _ _ _ _ _ success).trans (perm_insert inside _ _)

/-- A run of `to_dict` makes the writes of its table and of each table in it. -/
theorem toDictLogged_logs (context : LuaContext Double) (fuel : Nat) :
    LogsTables context fuel (toDictLogged context fuel) :=
  toDictWithLogged_logs (loopLogs fuel)

/-- It is `to_dict` without them. -/
theorem toDictLogged_erases (context : LuaContext Double) (fuel : Nat) (table : Int) :
    Program.Erases (toDictLogged context fuel table) (toDict context fuel table) :=
  toDictWithLogged_erases (toDictLoopLogged_erases fuel table)

end Writes

end Firestr.Gui
