import Firestr.Gui.LuaTree
import Firestr.Gui.LuaValues

/-! What `to_value` and `to_dict` make of a value on the stack, as a function of
the tree it is. -/

set_option autoImplicit false

namespace Firestr.Gui

open Firestr.Util Firestr.Library.Assoc Firestr.Library.Effects

variable {Double : Type}

section Trees

variable (context : LuaContext Double)

mutual

/-- What `to_dict` makes of a value, or nothing. -/
def readTree : LuaTree Double → Outcome (Option (Value Double))
  | .boolean v => .ok (scalarValue context (.boolean v))
  | .integer v => .ok (scalarValue context (.integer v))
  | .number v => .ok (scalarValue context (.number v))
  | .string v => .ok (scalarValue context (.string v))
  | .table fields => do
    let d ← readFields fields []
    .ok (some (.dict (context.walk d)))

/-- What its loop makes of the fields that are left. -/
def readFields : List (LuaValue Double × LuaTree Double) → List (Bytes × Value Double) →
    Outcome (List (Bytes × Value Double))
  | [], d => .ok d
  | (key, field) :: rest, d => do
    let k ← extractKey context key
    let v ← readTree field
    match v with
    | some v => do
      let d ← insertEntry d k.1 k.2 v
      readFields rest d
    | none => readFields rest d

end

/-- What `to_value` makes of a value. -/
def treeValue : LuaTree Double → Outcome (Value Double)
  | .boolean v => .ok (.bool v)
  | t => do
    let v ← readTree context t
    pure (v.getD (.bool false))

end Trees

mutual

/-- The most slots that are in use at one time while a value is read. -/
def readSlots : LuaTree Double → Nat
  | .table fields => max 1 (readSlotsFields fields)
  | _ => 0

def readSlotsFields : List (LuaValue Double × LuaTree Double) → Nat
  | [] => 0
  | (_, field) :: rest => max (readSlots field + 2) (readSlotsFields rest)

end

mutual

/-- How deep the calls and the turns of the loop of `to_dict` go. -/
def readDepth : LuaTree Double → Nat
  | .table fields => readDepthFields fields
  | _ => 0

def readDepthFields : List (LuaValue Double × LuaTree Double) → Nat
  | [] => 1
  | (_, field) :: rest => max (readDepth field) (readDepthFields rest) + 1

end

section Seen

/-- A value that `to_dict` leaves out. -/
def LuaValue.Skipped : LuaValue Double → Prop
  | .nil | .boolean _ | .userdata _ | .function _ => True
  | _ => False

variable (tables : List (LuaTable Double))

mutual

/-- The value is the tree for `to_dict`, to which all that it leaves out is one boolean or
another. -/
def Seen : LuaValue Double → LuaTree Double → Prop
  | x, .boolean _ => x.Skipped
  | x, .integer v => x = .integer v
  | x, .number v => x = .number v
  | x, .string v => x = .string v
  | x, .table fields => ∃ id t, x = .table id ∧ tables[id]? = some t ∧ SeenFields t.entries fields

def SeenFields :
    List (LuaValue Double × LuaValue Double) → List (LuaValue Double × LuaTree Double) → Prop
  | entries, [] => entries = []
  | entries, (key, field) :: fields =>
    ∃ x rest, entries = (key, x) :: rest ∧ Seen x field ∧ SeenFields rest fields

end

variable {tables} {low : Nat}

mutual

theorem Holds.seen {x : LuaValue Double} {t : LuaTree Double} (holds : Holds tables low x t) :
    Seen tables x t := by
  cases t with
  | boolean v =>
      unfold Holds at holds
      rw [holds]
      trivial
  | integer v | number v | string v => exact holds
  | table fields =>
      unfold Holds at holds
      obtain ⟨id, t, same, -, there, fields⟩ := holds
      unfold Seen
      exact ⟨id, t, same, there, fields.seen⟩

theorem HoldsFields.seen {entries : List (LuaValue Double × LuaValue Double)}
    {fields : List (LuaValue Double × LuaTree Double)}
    (holds : HoldsFields tables low entries fields) : SeenFields tables entries fields := by
  cases fields with
  | nil => exact holds
  | cons field fields =>
      obtain ⟨key, field⟩ := field
      unfold HoldsFields at holds
      obtain ⟨x, rest, same, here, later⟩ := holds
      unfold SeenFields
      exact ⟨x, rest, same, here.seen, later.seen⟩

end

end Seen

section Loop

variable [DecidableEq Double] {context : LuaContext Double}

/-- The key on top of the stack after the entries that are done. -/
def lastKey (done : List (LuaValue Double × LuaValue Double)) : LuaValue Double :=
  (done.getLast?.map (·.1)).getD .nil

omit [DecidableEq Double] in
theorem lastKey_concat (done : List (LuaValue Double × LuaValue Double))
    (e : LuaValue Double × LuaValue Double) : lastKey (done ++ [e]) = e.1 := by
  simp [lastKey]

theorem next_lastKey {t : LuaTable Double} {done rest : List (LuaValue Double × LuaValue Double)}
    (split : t.entries = done ++ rest) : t.next (lastKey done) = some rest.head? := by
  rcases List.eq_nil_or_concat done with rfl | ⟨before, e, rfl⟩
  · rw [show lastKey ([] : List (LuaValue Double × LuaValue Double)) = .nil from rfl,
      LuaTable.next_nil, split, List.nil_append]
  · have whole : t.entries = before ++ e :: rest := by
      rw [split, List.concat_eq_append, List.append_assoc]
      rfl
    rw [List.concat_eq_append, lastKey_concat]
    exact LuaTable.next_after whole

/-- The table is where its index says, below what the loop puts on the stack. -/
structure Placed (base : List (LuaValue Double)) (table : Int) (id : Nat) : Prop where
  split : ∃ below above, base = below ++ .table id :: above ∧ table = below.length + 1

omit [DecidableEq Double] in
theorem Placed.found {base rest : List (LuaValue Double)} {table : Int} {id : Nat}
    {L : LuaState Double} (placed : Placed base table id) (stack : L.stack = base ++ rest) :
    L.index2addr table = .table id := by
  obtain ⟨below, above, rfl, spot⟩ := placed.split
  refine @index2addr_of_split _ L below (above ++ rest) _ table ?_ spot
  rw [stack, List.append_assoc]
  rfl

/-- What a reader of tables makes of one that is not deeper than its fuel: it ends
exactly when the fields can be read and the slots are there, and it leaves the state
as it was. -/
def ReadsTables (context : LuaContext Double) (fuel : Nat)
    (inner : Int → Lua Double (List (Bytes × Value Double))) : Prop :=
  ∀ (fields : List (LuaValue Double × LuaTree Double)) (table : Int) (id : Nat)
    (t : LuaTable Double) (L L' : LuaState Double) (d : List (Bytes × Value Double)),
    readDepthFields fields ≤ fuel → Placed L.stack table id → L.tables[id]? = some t →
    SeenFields L.tables t.entries fields →
    (inner table L = (.ok d, L') ↔
      (∃ found, readFields context fields [] = .ok found ∧ d = context.walk found) ∧
        max 1 (readSlotsFields fields) ≤ L.free ∧ L' = L)

omit [DecidableEq Double] in
private theorem extractValue_scalar {inner : Int → Lua Double (List (Bytes × Value Double))}
    {base : List (LuaValue Double)} {x : LuaValue Double} {L : LuaState Double}
    (stack : L.stack = base ++ [x]) (scalar : ∀ id, x ≠ .table id) :
    extractValue context inner L = (.ok (scalarValue context x), L) := by
  unfold extractValue
  rw [Program.get_bind, index2addr_top stack]
  cases scalarValue context x with
  | some v => rfl
  | none =>
      cases x with
      | table id => exact absurd rfl (scalar id)
      | nil | boolean _ | integer _ | number _ | string _ | userdata _ | function _ => rfl

omit [DecidableEq Double] in
private theorem extractValue_table {inner : Int → Lua Double (List (Bytes × Value Double))}
    {base : List (LuaValue Double)} {id : Nat} {L : LuaState Double}
    (stack : L.stack = base ++ [.table id]) :
    extractValue context inner L =
      (do
        let d ← inner L.stack.length
        pure (some (.dict d)) : Lua Double (Option (Value Double))) L := by
  unfold extractValue
  rw [Program.get_bind, index2addr_top stack]
  rfl

omit [DecidableEq Double] in
theorem placed_top {base : List (LuaValue Double)} {id : Nat} {L : LuaState Double}
    (stack : L.stack = base ++ [.table id]) : Placed L.stack (L.stack.length : Int) id := by
  refine ⟨base, [], stack, ?_⟩
  rw [stack]
  simp

omit [DecidableEq Double] in
theorem extractValue_ok_iff {fuel : Nat}
    {inner : Int → Lua Double (List (Bytes × Value Double))} {base : List (LuaValue Double)}
    {x : LuaValue Double} {field : LuaTree Double} {L L' : LuaState Double}
    {v : Option (Value Double)} (reads : ReadsTables context fuel inner)
    (deep : readDepth field ≤ fuel) (stack : L.stack = base ++ [x])
    (holds : Seen L.tables x field) :
    extractValue context inner L = (.ok v, L') ↔
      readTree context field = .ok v ∧ readSlots field ≤ L.free ∧ L' = L := by
  cases field with
  | boolean b =>
      unfold Seen at holds
      have scalar : ∀ id, x ≠ .table id := by
        rintro id rfl
        exact holds
      have nothing : scalarValue context x = none := by
        cases x with
        | integer v | number v | string v | table id => cases holds
        | nil | boolean v | userdata id | function id => rfl
      rw [extractValue_scalar stack scalar, readTree, nothing]
      simp [readSlots, scalarValue, LuaValue.toInteger, LuaValue.toNumber, LuaValue.toText, eq_comm]
  | integer i | number r | string s =>
      unfold Seen at holds
      rw [holds] at stack
      rw [extractValue_scalar stack (by simp), readTree]
      simp [readSlots, eq_comm]
  | table fields =>
      unfold Seen at holds
      obtain ⟨id, t, rfl, there, holds⟩ := holds
      have placed := placed_top stack
      rw [extractValue_table stack, readTree, readSlots]
      constructor
      · intro success
        obtain ⟨d, middle, read, ended⟩ := Program.bind_ok_iff.mp success
        obtain ⟨⟨found, fine, rfl⟩, room, rfl⟩ :=
          (reads fields _ id t L middle d deep placed there holds).mp read
        cases ended
        refine ⟨?_, room, rfl⟩
        rw [fine]
        rfl
      · rintro ⟨fine, room, rfl⟩
        obtain ⟨found, read, ended⟩ := bind_ok fine
        cases ended
        exact (Program.bind_ok ((reads fields _ id t _ _ _ deep placed there holds).mpr
          ⟨⟨found, read, rfl⟩, room, rfl⟩)).trans rfl

/-- The loop, from a state with its key on top once the fields before are done. -/
def LoopReads (context : LuaContext Double) (fuel : Nat) : Prop :=
  ∀ (fields : List (LuaValue Double × LuaTree Double)) (base : List (LuaValue Double))
    (table : Int) (id : Nat) (t : LuaTable Double)
    (done rest : List (LuaValue Double × LuaValue Double)) (L L' : LuaState Double)
    (d d' : List (Bytes × Value Double)),
    readDepthFields fields ≤ fuel → Placed base table id → L.stack = base ++ [lastKey done] →
    L.tables[id]? = some t → t.entries = done ++ rest → SeenFields L.tables rest fields →
    (toDictLoop context fuel table d L = (.ok d', L') ↔
      readFields context fields d = .ok d' ∧ readSlotsFields fields ≤ L.slots - base.length ∧
        L' = { L with stack := base })

private theorem toDictWith_reads {fuel : Nat} (loop : LoopReads context fuel) :
    ReadsTables context fuel (toDictWith context (toDictLoop context fuel)) := by
  intro fields table id t L L' d deep placed there holds
  have spec := fun d' L' => loop fields L.stack table id t [] t.entries
    { L with stack := L.stack ++ [.nil] } L' [] d' deep placed rfl there rfl holds
  unfold toDictWith
  constructor
  · intro success
    obtain ⟨⟨⟩, started, push, success⟩ := Program.bind_ok_iff.mp success
    obtain ⟨found, last, read, ended⟩ := Program.bind_ok_iff.mp success
    obtain ⟨room, rfl⟩ := luaPush_ok_iff.mp push
    obtain ⟨fine, slots, rfl⟩ := (spec found last).mp read
    cases ended
    exact ⟨⟨found, fine, rfl⟩, Nat.max_le.mpr ⟨Nat.sub_pos_of_lt room, slots⟩, rfl⟩
  · rintro ⟨⟨found, fine, rfl⟩, room, rfl⟩
    obtain ⟨start, slots⟩ := Nat.max_le.mp room
    rw [Program.bind_ok (luaPush_ok start)]
    exact (Program.bind_ok ((spec found _).mpr ⟨fine, slots, rfl⟩)).trans rfl

private theorem loopReads (fuel : Nat) : LoopReads context fuel := by
  induction fuel with
  | zero =>
      intro fields base table id t done rest L L' d d' deep
      cases fields with
      | nil => cases deep
      | cons field fields => cases deep
  | succ fuel ih =>
      intro fields base table id t done rest L L' d d' deep placed stack there split holds
      have next := next_lastKey split
      have found := placed.found stack
      rw [toDictLoop]
      cases fields with
      | nil =>
          cases (holds : rest = [])
          rw [Program.bind_ok (luaNext_done stack found there next), readFields]
          simp [readSlotsFields, eq_comm]
      | cons field fields =>
          obtain ⟨key, field⟩ := field
          unfold SeenFields at holds
          obtain ⟨x, rest, rfl, here, later⟩ := holds
          rw [readDepthFields, Nat.add_le_add_iff_right, Nat.max_le] at deep
          have under : ({ L with stack := base ++ [key, x] } : LuaState Double).index2addr (-2) =
              key := index2addr_under_top rfl
          have top : base ++ [key, x] = base ++ [key] ++ [x] := by
            rw [List.append_assoc]
            rfl
          have value := fun v last => @extractValue_ok_iff _ context fuel _ _ x field
            { L with stack := base ++ [key, x] } last v (toDictWith_reads ih) deep.1 top here
          have pop := @luaPop_one _ _ _ { L with stack := base ++ [key, x] } top
          have whole : t.entries = done ++ [(key, x)] ++ rest := by
            rw [split, List.append_assoc]
            rfl
          have onTop : base ++ [key] = base ++ [lastKey (done ++ [(key, x)])] := by
            rw [lastKey_concat]
          have turns := fun d => ih fields base table id t (done ++ [(key, x)]) rest
            { L with stack := base ++ [key] } L' d d' deep.2 placed onTop there whole later
          have free : ({ L with stack := base ++ [key, x] } : LuaState Double).free =
              L.slots - (base.length + 2) := by simp [LuaState.free]
          rw [readSlotsFields, Nat.max_le]
          constructor
          · intro success
            obtain ⟨more, _, first, success⟩ := Program.bind_ok_iff.mp success
            obtain ⟨rfl, room, rfl⟩ := (luaNext_more_iff stack found there next).mp first
            rw [if_pos rfl, Program.get_bind, under] at success
            obtain ⟨k, _, extract, success⟩ := Program.bind_ok_iff.mp success
            obtain ⟨keyOk, rfl⟩ := Program.lift_ok_iff.mp extract
            obtain ⟨v, _, read, success⟩ := Program.bind_ok_iff.mp success
            obtain ⟨fine, slots, rfl⟩ := (value v _).mp read
            rw [free] at slots
            rw [readFields, keyOk, ok_bind, fine, ok_bind]
            cases v with
            | none =>
                obtain ⟨readRest, slotsRest, rfl⟩ :=
                  (turns d).mp ((Program.bind_ok pop).symm.trans success)
                exact ⟨readRest, ⟨by omega, slotsRest⟩, rfl⟩
            | some v =>
                obtain ⟨d₁, _, inserted, success⟩ := Program.bind_ok_iff.mp success
                obtain ⟨insertOk, rfl⟩ := Program.lift_ok_iff.mp inserted
                obtain ⟨readRest, slotsRest, rfl⟩ :=
                  (turns d₁).mp ((Program.bind_ok pop).symm.trans success)
                refine ⟨?_, ⟨by omega, slotsRest⟩, rfl⟩
                change (insertEntry d k.1 k.2 v >>= readFields context fields) = _
                rw [insertOk, ok_bind]
                exact readRest
          · rintro ⟨fine, slots, rfl⟩
            rw [readFields] at fine
            obtain ⟨k, keyOk, fine⟩ := bind_ok fine
            obtain ⟨v, read, fine⟩ := bind_ok fine
            have first := (@luaNext_more_iff _ _ L _ table id t base _ key x true stack found there
              next).mpr ⟨rfl, by omega, rfl⟩
            rw [Program.bind_ok first, if_pos rfl, Program.get_bind, under,
              Program.bind_ok (Program.lift_ok_iff.mpr ⟨keyOk, rfl⟩),
              Program.bind_ok ((value v _).mpr ⟨read, by omega, rfl⟩)]
            cases v with
            | none =>
                exact (Program.bind_ok pop).trans ((turns d).mpr ⟨fine, slots.2, rfl⟩)
            | some v =>
                obtain ⟨d₁, insertOk, fine⟩ := bind_ok fine
                refine (Program.bind_ok (Program.lift_ok_iff.mpr ⟨insertOk, rfl⟩)).trans ?_
                exact (Program.bind_ok pop).trans ((turns d₁).mpr ⟨fine, slots.2, rfl⟩)

/-- `to_dict` ends with what its fields make, and leaves the stack as it was. -/
theorem toDict_reads (context : LuaContext Double) (fuel : Nat) :
    ReadsTables context fuel (toDict context fuel) :=
  toDictWith_reads (loopReads fuel)

omit [DecidableEq Double] in
theorem exists_seen {tables : List (LuaTable Double)} {x : LuaValue Double}
    (scalar : ∀ id, x ≠ .table id) : ∃ field, Seen tables x field ∧ readDepth field = 0 := by
  cases x with
  | nil | boolean v | userdata id | function id =>
      refine ⟨.boolean false, ?_, rfl⟩
      unfold Seen
      trivial
  | integer v =>
      refine ⟨.integer v, ?_, rfl⟩
      unfold Seen
      rfl
  | number v =>
      refine ⟨.number v, ?_, rfl⟩
      unfold Seen
      rfl
  | string v =>
      refine ⟨.string v, ?_, rfl⟩
      unfold Seen
      rfl
  | table id => exact absurd rfl (scalar id)

private theorem toDictLoop_there {fuel : Nat} {table : Int} {id : Nat} {L L' : LuaState Double}
    {d d' : List (Bytes × Value Double)} (found : L.index2addr table = .table id)
    (success : toDictLoop context fuel table d L = (.ok d', L')) :
    ∃ t, L.tables[id]? = some t := by
  cases fuel with
  | zero => cases success
  | succ fuel =>
      rw [toDictLoop] at success
      obtain ⟨more, next, first, -⟩ := Program.bind_ok_iff.mp success
      unfold luaNext at first
      cases there : L.tables[id]? with
      | some t => exact ⟨t, rfl⟩
      | none =>
          simp only [found, there] at first
          cases first

/-- A reader of tables ends for trees alone. -/
def SeesTables (fuel : Nat) (inner : Int → Lua Double (List (Bytes × Value Double))) : Prop :=
  ∀ (table : Int) (id : Nat) (L L' : LuaState Double) (d : List (Bytes × Value Double)),
    Placed L.stack table id → inner table L = (.ok d, L') →
    ∃ t fields, L.tables[id]? = some t ∧ SeenFields L.tables t.entries fields ∧
      readDepthFields fields ≤ fuel

omit [DecidableEq Double] in
private theorem extractValue_seen {fuel : Nat}
    {inner : Int → Lua Double (List (Bytes × Value Double))} {base : List (LuaValue Double)}
    {x : LuaValue Double} {L L' : LuaState Double} {v : Option (Value Double)}
    (reads : ReadsTables context fuel inner) (sees : SeesTables fuel inner)
    (stack : L.stack = base ++ [x]) (success : extractValue context inner L = (.ok v, L')) :
    L' = L ∧ ∃ field, Seen L.tables x field ∧ readDepth field ≤ fuel := by
  by_cases scalar : ∀ id, x ≠ .table id
  · obtain ⟨field, seen, flat⟩ := @exists_seen _ L.tables x scalar
    rw [extractValue_scalar stack scalar] at success
    cases success
    exact ⟨rfl, field, seen, flat ▸ Nat.zero_le _⟩
  · obtain ⟨id, same⟩ := not_forall_not.mp scalar
    subst same
    rw [extractValue_table stack] at success
    obtain ⟨d, _, read, ended⟩ := Program.bind_ok_iff.mp success
    cases ended
    have placed := placed_top stack
    obtain ⟨t, fields, there, seen, deep⟩ := sees _ id _ _ _ placed read
    obtain ⟨-, -, kept⟩ := (reads fields _ id t _ _ _ deep placed there seen).mp read
    refine ⟨kept, .table fields, ?_, deep⟩
    unfold Seen
    exact ⟨id, t, rfl, there, seen⟩

/-- What a loop that ends has left to walk are trees. -/
def LoopSees (context : LuaContext Double) (fuel : Nat) : Prop :=
  ∀ (base : List (LuaValue Double)) (table : Int) (id : Nat) (t : LuaTable Double)
    (done rest : List (LuaValue Double × LuaValue Double)) (L L' : LuaState Double)
    (d d' : List (Bytes × Value Double)),
    Placed base table id → L.stack = base ++ [lastKey done] → L.tables[id]? = some t →
    t.entries = done ++ rest → toDictLoop context fuel table d L = (.ok d', L') →
    ∃ fields, SeenFields L.tables rest fields ∧ readDepthFields fields ≤ fuel

private theorem toDictWith_sees {fuel : Nat} (loop : LoopSees context fuel) :
    SeesTables fuel (toDictWith context (toDictLoop context fuel)) := by
  intro table id L L' d placed success
  unfold toDictWith at success
  obtain ⟨⟨⟩, started, push, success⟩ := Program.bind_ok_iff.mp success
  obtain ⟨walked, last, run, -⟩ := Program.bind_ok_iff.mp success
  obtain ⟨-, rfl⟩ := luaPush_ok_iff.mp push
  obtain ⟨t, there⟩ := toDictLoop_there (placed.found rfl) run
  obtain ⟨fields, seen, deep⟩ := loop L.stack table id t [] t.entries
    { L with stack := L.stack ++ [.nil] } last [] walked placed rfl there rfl run
  exact ⟨t, fields, there, seen, deep⟩

private theorem loopSees (fuel : Nat) : LoopSees context fuel := by
  induction fuel with
  | zero =>
      intro base table id t done rest L L' d d' placed stack there split success
      cases success
  | succ fuel ih =>
      intro base table id t done rest L L' d d' placed stack there split success
      cases rest with
      | nil =>
          refine ⟨[], ?_, Nat.succ_le_succ (Nat.zero_le _)⟩
          unfold SeenFields
          rfl
      | cons e rest =>
          obtain ⟨key, x⟩ := e
          rw [toDictLoop] at success
          obtain ⟨more, _, first, success⟩ := Program.bind_ok_iff.mp success
          obtain ⟨rfl, room, rfl⟩ :=
            (luaNext_more_iff stack (placed.found stack) there (next_lastKey split)).mp first
          rw [if_pos rfl, Program.get_bind] at success
          obtain ⟨k, _, extract, success⟩ := Program.bind_ok_iff.mp success
          obtain ⟨-, rfl⟩ := Program.lift_ok_iff.mp extract
          obtain ⟨v, _, read, success⟩ := Program.bind_ok_iff.mp success
          have top : base ++ [key, x] = base ++ [key] ++ [x] := by
            rw [List.append_assoc]
            rfl
          obtain ⟨rfl, field, seen, shallow⟩ := @extractValue_seen _ context fuel _ (base ++ [key]) x
            { L with stack := base ++ [key, x] } _ v (toDictWith_reads (loopReads fuel))
            (toDictWith_sees ih) top read
          have pop := @luaPop_one _ _ _ { L with stack := base ++ [key, x] } top
          have later : ∃ d₁, toDictLoop context fuel table d₁ { L with stack := base ++ [key] } =
              (.ok d', L') := by
            cases v with
            | none => exact ⟨d, (Program.bind_ok pop).symm.trans success⟩
            | some v =>
                obtain ⟨d₁, _, inserted, success⟩ := Program.bind_ok_iff.mp success
                obtain ⟨-, rfl⟩ := Program.lift_ok_iff.mp inserted
                exact ⟨d₁, (Program.bind_ok pop).symm.trans success⟩
          obtain ⟨d₁, later⟩ := later
          have onTop : base ++ [key] = base ++ [lastKey (done ++ [(key, x)])] := by
            rw [lastKey_concat]
          have whole : t.entries = done ++ [(key, x)] ++ rest := by
            rw [split, List.append_assoc]
            rfl
          obtain ⟨fields, others, deep⟩ := ih base table id t (done ++ [(key, x)]) rest
            { L with stack := base ++ [key] } L' d₁ d' placed onTop there whole later
          refine ⟨(key, field) :: fields, ?_, ?_⟩
          · unfold SeenFields
            exact ⟨x, rest, rfl, seen, others⟩
          · rw [readDepthFields]
            exact Nat.succ_le_succ (Nat.max_le.mpr ⟨shallow, deep⟩)

/-- Each run of `to_dict` that ends is one for a tree. -/
theorem toDict_sees (context : LuaContext Double) (fuel : Nat) :
    SeesTables fuel (toDict context fuel) :=
  toDictWith_sees (loopSees fuel)

end Loop

end Firestr.Gui
