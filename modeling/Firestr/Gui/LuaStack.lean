import Firestr.Gui.LuaPush

/-! When `push_value` leaves one value on the stack. A call that comes to an end
without that leaves none at all, whatever it was to push. -/

set_option autoImplicit false

namespace Firestr.Gui

open Firestr.Util Firestr.Library.Assoc Firestr.Library.Effects

variable {Double : Type}

/-- A push ends with one value more if nothing stands against it, or with none. -/
structure Ends (fine : Bool) (need : Nat) (L L' : LuaState Double) : Prop where
  slots : L'.slots = L.slots
  stack : (fine = true ∧ need ≤ L.free ∧ ∃ x, L'.stack = L.stack ++ [x]) ∨ L'.stack = L.stack

/-- A loop ends with its table on top if nothing stands against it, or without it. -/
structure LoopEnds (base : List (LuaValue Double)) (fine : Bool) (need : Nat)
    (L L' : LuaState Double) : Prop where
  slots : L'.slots = L.slots
  stack : (fine = true ∧ need ≤ L.free ∧ L'.stack = L.stack) ∨ L'.stack = base

section Loops

variable {L middle L' : LuaState Double} {base : List (LuaValue Double)} {id : Nat}

private theorem table_ends {fine : Bool} {need : Nat} (room : L.stack.length < L.slots)
    (loop : LoopEnds L.stack fine need L.opened L') : Ends fine (need + 1) L L' := by
  refine ⟨loop.slots, ?_⟩
  rcases loop.stack with ⟨good, enough, kept⟩ | lost
  · refine .inl ⟨good, ?_, _, kept⟩
    simp only [LuaState.free, LuaState.opened, List.length_append, List.length_singleton]
      at enough ⊢
    omega
  · exact .inr lost

private theorem LoopEnds.seq {first second : Bool} {need need' : Nat}
    (stack : L.stack = base ++ [.table id]) (here : LoopEnds base first need L middle)
    (kept : middle.stack = base ++ [.table id] → LoopEnds base second need' middle L')
    (lost : middle.stack = base → L'.stack = base ∧ L'.slots = middle.slots) :
    LoopEnds base (first && second) (max need need') L L' := by
  rcases here.stack with ⟨fine, enough, same⟩ | gone
  · obtain ⟨slots, rest⟩ := kept (same.trans stack)
    have free : middle.free = L.free := by
      unfold LuaState.free
      rw [same, here.slots]
    refine ⟨slots.trans here.slots, ?_⟩
    rcases rest with ⟨fine', enough', same'⟩ | gone
    · refine .inl ⟨?_, Nat.max_le.mpr ⟨enough, free ▸ enough'⟩, same'.trans same⟩
      rw [fine, fine']
      rfl
    · exact .inr gone
  · obtain ⟨gone', slots⟩ := lost gone
    exact ⟨slots.trans here.slots, .inr gone'⟩

end Loops

section Ends

variable [DecidableEq Double] {context : LuaContext Double} {L middle L' : LuaState Double}
  {base : List (LuaValue Double)} {id : Nat} {key : LuaValue Double} {v : Value Double}

/-- A turn of a loop whose table is on top: it keeps the table, or it loses it. -/
private theorem field_ends (stack : L.stack = base ++ [.table id])
    (room : L.stack.length < L.slots)
    (push : Ends (pushable v) (slotsOf v) { L with stack := L.stack ++ [key] } middle)
    (set : luaSetTable context.numbers (base.length + 1) middle = (.ok (), L')) :
    LoopEnds base (pushable v) (slotsOf v + 1) L L' := by
  obtain ⟨popped, slots, -⟩ := luaSetTable_ok set
  refine ⟨slots.trans push.slots, ?_⟩
  rcases push.stack with ⟨fine, need, x, one⟩ | none
  · refine .inl ⟨fine, ?_, ?_⟩
    · simp only [LuaState.free, List.length_append, List.length_singleton] at need ⊢
      omega
    · rw [popped, one]
      simp
  · refine .inr ?_
    rw [popped, none, stack]
    simp

/-- A turn of a loop whose table is lost: its key is in the place of the table. -/
private theorem field_fails {result : Unit} (stack : L.stack = base) (other : ∀ id, key ≠ .table id)
    (push : Ends (pushable v) (slotsOf v) { L with stack := L.stack ++ [key] } middle)
    (set : luaSetTable context.numbers (base.length + 1) middle = (.ok result, L')) : False := by
  obtain ⟨-, -, table, found⟩ := luaSetTable_ok set
  apply other table
  rw [← found]
  rcases push.stack with ⟨-, -, x, one⟩ | none
  · refine (@index2addr_of_split _ middle base [x] key _ ?_ rfl).symm
    rw [one, stack, List.append_assoc]
    rfl
  · refine (@index2addr_of_split _ middle base [] key _ ?_ rfl).symm
    rw [none, stack]

mutual

theorem pushValue_ends {v : Value Double} {L L' : LuaState Double}
    (success : pushValue context v L = (.ok (), L')) : Ends (pushable v) (slotsOf v) L L' := by
  cases v with
  | empty | bool v | size v =>
      cases success
      exact ⟨rfl, .inr rfl⟩
  | int v | real v | bytes v =>
      obtain ⟨room, rfl⟩ := luaPush_ok_iff.mp success
      exact ⟨rfl, .inl ⟨rfl, Nat.sub_pos_of_lt room, _, rfl⟩⟩
  | dict v =>
      rw [pushValue] at success
      obtain ⟨⟨⟩, opened, new, success⟩ := Program.bind_ok_iff.mp success
      obtain ⟨room, rfl⟩ := luaPush_ok_iff.mp new
      obtain ⟨top, _, ⟨⟩, loop⟩ := Program.bind_ok_iff.mp success
      simp only [List.length_append, List.length_singleton, Nat.cast_add, Nat.cast_one] at loop
      exact table_ends room ((pushEntries_ends loop).1 _ rfl)
  | array v =>
      rw [pushValue] at success
      obtain ⟨⟨⟩, opened, new, success⟩ := Program.bind_ok_iff.mp success
      obtain ⟨room, rfl⟩ := luaPush_ok_iff.mp new
      obtain ⟨top, _, ⟨⟩, loop⟩ := Program.bind_ok_iff.mp success
      simp only [List.length_append, List.length_singleton, Nat.cast_add, Nat.cast_one] at loop
      exact table_ends room ((pushElements_ends loop).1 _ rfl)

theorem pushEntries_ends {entries : List (Bytes × Value Double)} {L L' : LuaState Double}
    {base : List (LuaValue Double)}
    (success : pushEntries context (base.length + 1) entries L = (.ok (), L')) :
    (∀ id, L.stack = base ++ [.table id] →
      LoopEnds base (pushableEntries entries) (slotsOfEntries entries) L L') ∧
    (L.stack = base → L'.stack = base ∧ L'.slots = L.slots) := by
  cases entries with
  | nil =>
      rw [pushEntries] at success
      cases success
      exact ⟨fun id stack => ⟨rfl, .inl ⟨rfl, Nat.zero_le _, rfl⟩⟩, fun stack => ⟨stack, rfl⟩⟩
  | cons entry rest =>
      obtain ⟨key, v⟩ := entry
      by_cases special : key = arrayK
      · subst special
        cases v with
        | array a =>
            rw [pushEntries_array] at success
            obtain ⟨⟨⟩, middle, elements, loop⟩ := Program.bind_ok_iff.mp success
            obtain ⟨kept, lost⟩ := pushElements_ends elements
            obtain ⟨keptRest, lostRest⟩ := pushEntries_ends loop
            constructor
            · intro id stack
              have both := LoopEnds.seq stack (kept id stack) (keptRest id) lostRest
              simpa only [pushableEntries, slotsOfEntries, isArray, pushable, slotsOf, if_pos,
                Nat.add_sub_cancel, Bool.or_true, Bool.true_and] using both
            · intro stack
              obtain ⟨gone, slots⟩ := lost stack
              exact ⟨(lostRest gone).1, (lostRest gone).2.trans slots⟩
        | empty | bool _ | int _ | size _ | real _ | bytes _ | dict _ =>
            rw [pushEntries_not_array rfl] at success
            cases success
      · rw [pushEntries_field special] at success
        obtain ⟨⟨⟩, keyed, pushKey, success⟩ := Program.bind_ok_iff.mp success
        obtain ⟨⟨⟩, middle, push, success⟩ := Program.bind_ok_iff.mp success
        obtain ⟨⟨⟩, last, set, loop⟩ := Program.bind_ok_iff.mp success
        obtain ⟨room, rfl⟩ := luaPush_ok_iff.mp pushKey
        obtain ⟨keptRest, lostRest⟩ := pushEntries_ends loop
        constructor
        · intro id stack
          have both := LoopEnds.seq stack (field_ends stack room (pushValue_ends push) set)
            (keptRest id) lostRest
          simpa only [pushableEntries, slotsOfEntries, ne_eq, special, not_false_eq_true,
            decide_true, Bool.true_or, Bool.true_and, if_false] using both
        · intro stack
          exact (field_fails stack (by simp) (pushValue_ends push) set).elim

theorem pushElements_ends {elements : List (Value Double)} {i : Int32} {L L' : LuaState Double}
    {base : List (LuaValue Double)}
    (success : pushElements context (base.length + 1) i elements L = (.ok (), L')) :
    (∀ id, L.stack = base ++ [.table id] →
      LoopEnds base (pushableElements elements) (slotsOfElements elements) L L') ∧
    (L.stack = base → L'.stack = base ∧ L'.slots = L.slots) := by
  cases elements with
  | nil =>
      rw [pushElements] at success
      cases success
      exact ⟨fun id stack => ⟨rfl, .inl ⟨rfl, Nat.zero_le _, rfl⟩⟩, fun stack => ⟨stack, rfl⟩⟩
  | cons v rest =>
      rw [pushElements] at success
      obtain ⟨⟨⟩, keyed, pushKey, success⟩ := Program.bind_ok_iff.mp success
      obtain ⟨⟨⟩, middle, push, success⟩ := Program.bind_ok_iff.mp success
      obtain ⟨⟨⟩, last, set, loop⟩ := Program.bind_ok_iff.mp success
      obtain ⟨room, rfl⟩ := luaPush_ok_iff.mp pushKey
      obtain ⟨keptRest, lostRest⟩ := pushElements_ends loop
      constructor
      · intro id stack
        exact LoopEnds.seq stack (field_ends stack room (pushValue_ends push) set)
          (keptRest id) lostRest
      · intro stack
        exact (field_fails stack (by simp) (pushValue_ends push) set).elim

end

/-- `push_value` puts exactly one value on top, leaves everything else as it was and
calls `lua_settable` with a key and a value over its table each time, exactly when
each part of the value has a push and the stack has the slots. -/
theorem pushes_one_iff (context : LuaContext Double) (v : Value Double) (L : LuaState Double) :
    (∃ x L', pushValue context v L = (.ok (), L') ∧ Pushed L L' x) ↔
      pushable v = true ∧ slotsOf v ≤ L.free := by
  constructor
  · rintro ⟨x, L', success, pushed⟩
    rcases (pushValue_ends success).stack with ⟨fine, room, -⟩ | none
    · exact ⟨fine, room⟩
    · rw [pushed.stack] at none
      simp at none
  · rintro ⟨fine, room⟩
    obtain ⟨x, L', success, pushed, -⟩ := @pushValue_pushed _ _ context v L fine room
    exact ⟨x, L', success, pushed⟩

end Ends

/-- A script message with a key on its stack. -/
def calledWithKey : LuaState Nat := ⟨[.userdata 0, .string (ascii "k")], 22, [], [], []⟩

/-- A flag in a received dictionary takes its table off the stack, and the next
key is where the table was. -/
theorem flag_shifts_stack :
    (¬∃ x L', pushValue wholeContext (.dict [(ascii "draft", .bool true)]) calledWithKey =
        (.ok (), L') ∧ Pushed calledWithKey L' x) ∧
      (pushValue wholeContext (.dict [(ascii "draft", .bool true)]) calledWithKey).2.stack =
        calledWithKey.stack ∧
      (pushValue wholeContext
          (.dict [(ascii "draft", .bool true), (ascii "text", .bytes (ascii "hi"))])
          calledWithKey).1 =
        .error (.thrown "attempt to index a string value") := by
  have none : (pushValue wholeContext (.dict [(ascii "draft", .bool true)])
      calledWithKey).2.stack = calledWithKey.stack := rfl
  refine ⟨?_, none, rfl⟩
  rintro ⟨x, L', ran, pushed⟩
  rw [ran] at none
  rw [pushed.stack] at none
  simp at none

end Firestr.Gui
