import Firestr.Gui.LuaStack
import Firestr.Gui.LuaTrip

/-! Values in a script message: what `message:get(k)` returns after
`message:set(k, v)`. -/

set_option autoImplicit false

namespace Firestr.Gui

open Firestr.Util Firestr.Library.Assoc Firestr.Library.Effects

variable {Double : Type}

mutual

/-- A value is one tree only. -/
theorem Holds.unique {tables : List (LuaTable Double)} {low low' : Nat} {x : LuaValue Double}
    {t u : LuaTree Double} (first : Holds tables low x t) (second : Holds tables low' x u) :
    t = u := by
  cases t with
  | boolean v | integer v | number v | string v =>
      unfold Holds at first
      subst first
      cases u with
      | table fields =>
          unfold Holds at second
          obtain ⟨id, t, same, -⟩ := second
          cases same
      | boolean w | integer w | number w | string w =>
          unfold Holds at second
          cases second
          try rfl
  | table fields =>
      unfold Holds at first
      obtain ⟨id, entries, rfl, -, there, first⟩ := first
      cases u with
      | table others =>
          unfold Holds at second
          obtain ⟨id', entries', same, -, there', second⟩ := second
          cases same
          rw [there] at there'
          cases there'
          rw [first.unique second]
      | boolean w | integer w | number w | string w =>
          unfold Holds at second
          cases second

theorem HoldsFields.unique {tables : List (LuaTable Double)} {low low' : Nat}
    {entries : List (LuaValue Double × LuaValue Double)}
    {fields others : List (LuaValue Double × LuaTree Double)}
    (first : HoldsFields tables low entries fields)
    (second : HoldsFields tables low' entries others) : fields = others := by
  cases fields with
  | nil =>
      unfold HoldsFields at first
      subst first
      cases others with
      | nil => rfl
      | cons e others =>
          obtain ⟨key, field⟩ := e
          unfold HoldsFields at second
          obtain ⟨x, rest, whole, -⟩ := second
          cases whole
  | cons e fields =>
      obtain ⟨key, field⟩ := e
      unfold HoldsFields at first
      obtain ⟨x, rest, rfl, here, later⟩ := first
      cases others with
      | nil =>
          unfold HoldsFields at second
          cases second
      | cons e' others =>
          obtain ⟨key', field'⟩ := e'
          unfold HoldsFields at second
          obtain ⟨x', rest', whole, here', later'⟩ := second
          cases whole
          rw [here.unique here', later.unique later']

end

variable [DecidableEq Double] {context : LuaContext Double} {fuel free id : Nat} {k : Bytes}
  {x : LuaValue Double} {t : LuaTree Double} {L L' : LuaState Double}

/-- What `to_value` makes of a parameter. -/
theorem toValue_ok_iff {base above : List (LuaValue Double)} {v : Value Double}
    (deep : readDepth t ≤ fuel) (stack : L.stack = base ++ x :: above)
    (holds : Holds L.tables 0 x t) :
    toValue context fuel (base.length + 1) L = (.ok v, L') ↔
      treeValue context t = .ok v ∧ readSlots t ≤ L.free ∧ L' = L := by
  unfold toValue
  rw [Program.get_bind, index2addr_of_split stack rfl]
  cases t with
  | boolean b =>
      unfold Holds at holds
      subst holds
      simp [treeValue, readSlots, eq_comm]
  | integer i | number r | string s =>
      unfold Holds at holds
      subst holds
      simp [treeValue, readTree, readSlots, eq_comm]
  | table fields =>
      unfold Holds at holds
      obtain ⟨ref, entries, rfl, -, there, holds⟩ := holds
      have placed : Placed L.stack ((base.length : Int) + 1) ref := ⟨base, above, stack, rfl⟩
      have spec := fun d L' => toDict_reads context fuel fields _ ref entries L L' d deep placed
        there holds.seen
      rw [treeValue, readTree, readSlots]
      constructor
      · intro success
        obtain ⟨d, last, read, ended⟩ := Program.bind_ok_iff.mp success
        obtain ⟨⟨found, fine, rfl⟩, room, rfl⟩ := (spec d last).mp read
        cases ended
        rw [fine]
        exact ⟨rfl, room, rfl⟩
      · rintro ⟨image, room, rfl⟩
        obtain ⟨r, image, ended⟩ := bind_ok image
        obtain ⟨found, fine, inner⟩ := bind_ok image
        cases inner
        cases ended
        exact (Program.bind_ok ((spec _ _).mpr ⟨⟨found, fine, rfl⟩, room, rfl⟩)).trans rfl
      · simp

/-- The state in which a called function starts. -/
def LuaState.frame (L : LuaState Double) (free : Nat) (arguments : List (LuaValue Double)) :
    LuaState Double :=
  { L with stack := arguments, slots := arguments.length + free }

omit [DecidableEq Double] in
theorem luaCall_ok_iff {function : Lua Double Nat} {arguments results : List (LuaValue Double)} :
    luaCall free function arguments L = (.ok results, L') ↔
      ∃ n last, function (L.frame free arguments) = (.ok n, last) ∧
        results = last.stack.drop (last.stack.length - n) ∧
        L' = { last with stack := L.stack, slots := L.slots } := by
  cases ran : function (L.frame free arguments) with
  | mk outcome last =>
      have ran : function { L with stack := arguments, slots := arguments.length + free } =
          (outcome, last) := ran
      unfold luaCall
      rw [ran]
      cases outcome with
      | ok n =>
          constructor
          · rintro ⟨⟩
            exact ⟨n, last, rfl, rfl, rfl⟩
          · rintro ⟨n', last', ⟨⟩, rfl, rfl⟩
            rfl
      | error fault =>
          constructor
          · rintro ⟨⟩
          · rintro ⟨n, last', ⟨⟩, -⟩

omit [DecidableEq Double] in
theorem free_frame (L : LuaState Double) (free : Nat) (arguments : List (LuaValue Double)) :
    (L.frame free arguments).free = free := by
  simp [LuaState.free, LuaState.frame]

/-- The message with its dictionary under `id`. -/
def LuaState.holding (L : LuaState Double) (id : Nat) (r : List (Bytes × Value Double)) :
    LuaState Double :=
  { L with messages := L.messages.set id r }

variable {r : List (Bytes × Value Double)} {results : List (LuaValue Double)}

theorem messageSet_ok_iff (key : cString k ≠ []) (there : L.messages[id]? = some r)
    (deep : readDepth t ≤ fuel) (holds : Holds L.tables 0 x t) :
    luaCall free (scriptMessageSet context fuel) [.userdata id, .string k, x] L =
        (.ok results, L') ↔
      ∃ v, treeValue context t = .ok v ∧ readSlots t ≤ free ∧ results = [] ∧
        L' = L.holding id (assign r (cString k) v) := by
  have frame : (L.frame free [.userdata id, .string k, x]).message 1 = some (id, r) := by
    change (L.messages[id]?).map _ = _
    rw [there]
    rfl
  have param := fun v last => @toValue_ok_iff _ _ context fuel x t
    (L.frame free [.userdata id, .string k, x]) last [.userdata id, .string k] [] v deep rfl holds
  have body : scriptMessageSet context fuel (L.frame free [.userdata id, .string k, x]) =
      (do
        let v ← toValue context fuel 3
        Program.modify fun L =>
          { L with messages := L.messages.modify id fun r => assign r (cString k) v }
        pure 0 : Lua Double Nat) (L.frame free [.userdata id, .string k, x]) := by
    unfold scriptMessageSet
    rw [Program.get_bind, if_neg (by simp [LuaState.frame])]
    simp only [frame]
    refine (Program.bind_ok (rfl : luaToString context.numbers 2
      (L.frame free [.userdata id, .string k, x]) = (.ok (some k), _))).trans ?_
    simp only [Option.map_some, if_neg key]
    rfl
  rw [luaCall_ok_iff, body]
  have stored : ∀ v, (L.messages.modify id fun r => assign r (cString k) v) =
      L.messages.set id (assign r (cString k) v) := by
    intro v
    rw [List.modify_eq_set, there]
    rfl
  constructor
  · rintro ⟨n, last, success, rfl, rfl⟩
    obtain ⟨v, middle, valued, ended⟩ := Program.bind_ok_iff.mp success
    obtain ⟨image, room, rfl⟩ := (param v middle).mp valued
    rw [free_frame] at room
    cases ended
    refine ⟨v, image, room, by simp, ?_⟩
    unfold LuaState.holding
    rw [← stored]
    rfl
  · rintro ⟨v, image, room, rfl, rfl⟩
    rw [← free_frame L free [.userdata id, .string k, x]] at room
    refine ⟨0, _, (Program.bind_ok ((param v _).mpr ⟨image, room, rfl⟩)).trans rfl, ?_, ?_⟩
    · simp
    · unfold LuaState.holding
      rw [← stored]
      rfl

/-- A key that shows no text is not stored. -/
theorem messageSet_empty (key : cString k = []) (there : L.messages[id]? = some r) :
    luaCall free (scriptMessageSet context fuel) [.userdata id, .string k, x] L = (.ok [], L) := by
  have frame : (L.frame free [.userdata id, .string k, x]).message 1 = some (id, r) := by
    change (L.messages[id]?).map _ = _
    rw [there]
    rfl
  refine luaCall_ok_iff.mpr ⟨0, L.frame free [.userdata id, .string k, x], ?_, by simp, rfl⟩
  unfold scriptMessageSet
  rw [Program.get_bind, if_neg (by simp [LuaState.frame])]
  simp only [frame]
  refine (Program.bind_ok (rfl : luaToString context.numbers 2
    (L.frame free [.userdata id, .string k, x]) = (.ok (some k), _))).trans ?_
  simp only [Option.map_some, if_pos key]
  rfl

/-- `get` of a key that is there pushes its value. -/
theorem messageGet_ok_iff {v : Value Double} (there : L.messages[id]? = some r)
    (found : r.lookup (cString k) = some v) :
    luaCall free (scriptMessageGet context) [.userdata id, .string k] L = (.ok results, L') ↔
      ∃ last, pushValue context v (L.frame free [.userdata id, .string k]) = (.ok (), last) ∧
        results = last.stack.drop (last.stack.length - 1) ∧
        L' = { last with stack := L.stack, slots := L.slots } := by
  have frame : (L.frame free [.userdata id, .string k]).message 1 = some (id, r) := by
    change (L.messages[id]?).map _ = _
    rw [there]
    rfl
  have body : scriptMessageGet context (L.frame free [.userdata id, .string k]) =
      (do
        pushValue context v
        pure 1 : Lua Double Nat) (L.frame free [.userdata id, .string k]) := by
    unfold scriptMessageGet
    rw [Program.get_bind, if_neg (by simp [LuaState.frame])]
    simp only [frame]
    refine (Program.bind_ok (rfl : luaToString context.numbers 2
      (L.frame free [.userdata id, .string k]) = (.ok (some k), _))).trans ?_
    simp only [Option.map_some, found]
    rfl
  rw [luaCall_ok_iff, body]
  constructor
  · rintro ⟨n, last, success, rest⟩
    obtain ⟨⟨⟩, middle, push, ended⟩ := Program.bind_ok_iff.mp success
    cases ended
    exact ⟨_, push, rest⟩
  · rintro ⟨last, push, rest⟩
    exact ⟨1, last, (Program.bind_ok push).trans rfl, rest⟩

/-- `get` of a key that is not there returns `nil`. -/
theorem messageGet_absent (there : L.messages[id]? = some r)
    (absent : r.lookup (cString k) = none)
    (success : luaCall free (scriptMessageGet context) [.userdata id, .string k] L =
      (.ok results, L')) : results = [.nil] := by
  have frame : (L.frame free [.userdata id, .string k]).message 1 = some (id, r) := by
    change (L.messages[id]?).map _ = _
    rw [there]
    rfl
  have body : scriptMessageGet context (L.frame free [.userdata id, .string k]) =
      (do
        luaPush .nil
        pure 1 : Lua Double Nat) (L.frame free [.userdata id, .string k]) := by
    unfold scriptMessageGet
    rw [Program.get_bind, if_neg (by simp [LuaState.frame])]
    simp only [frame]
    refine (Program.bind_ok (rfl : luaToString context.numbers 2
      (L.frame free [.userdata id, .string k]) = (.ok (some k), _))).trans ?_
    simp only [Option.map_some, absent]
    rfl
  obtain ⟨n, last, ran, rfl, -⟩ := luaCall_ok_iff.mp success
  rw [body] at ran
  obtain ⟨⟨⟩, middle, push, ended⟩ := Program.bind_ok_iff.mp ran
  obtain ⟨-, rfl⟩ := luaPush_ok_iff.mp push
  cases ended
  rfl

omit [DecidableEq Double] in
theorem treeValue_of_readTree {v : Value Double} (image : readTree context t = .ok (some v)) :
    treeValue context t = .ok v := by
  cases t with
  | boolean b => cases image
  | integer _ | number _ | string _ | table _ =>
      rw [treeValue, image]
      · rfl
      · simp

omit [DecidableEq Double] in
theorem readTree_of_treeValue {v : Value Double} (image : treeValue context t = .ok v)
    (fine : pushable v = true) : readTree context t = .ok (some v) := by
  cases t with
  | boolean b =>
      cases image
      cases fine
  | integer _ | number _ | string _ | table _ =>
      rw [treeValue] at image
      · obtain ⟨r, read, ended⟩ := bind_ok image
        cases r with
        | none =>
            cases ended
            cases fine
        | some w =>
            cases ended
            exact read
      · simp

private theorem text_pushed {s : Bytes} {v : Value Double}
    (image : treeValue context (.string s) = .ok v)
    (push : pushValue context v L = (.ok (), L')) : L'.stack ≠ L.stack := by
  have scalar : ∃ x, pushValue context v = luaPush x := by
    cases numeric : context.numbers.ofText s with
    | none =>
        rw [treeValue, readTree, scalarValue_word numeric] at image
        · cases image
          exact ⟨_, rfl⟩
        · simp
    | some x =>
        rw [treeValue, readTree, scalarValue_numeral numeric] at image
        · cases image
          exact ⟨_, rfl⟩
        · simp
  obtain ⟨x, scalar⟩ := scalar
  rw [scalar] at push
  obtain ⟨-, rfl⟩ := luaPush_ok_iff.mp push
  simp

section Survives

/-- `message:set(k, x)` and then `message:get(k)`, each with `free` slots. -/
def setAndGet (context : LuaContext Double) (fuel free id : Nat) (k : Bytes)
    (x : LuaValue Double) : Lua Double (List (LuaValue Double)) := do
  let _ ← luaCall free (scriptMessageSet context fuel) [.userdata id, .string k, x]
  luaCall free (scriptMessageGet context) [.userdata id, .string k]

/-- The value that is returned is equal to the one that was stored, the tree `t`. -/
def Survives (context : LuaContext Double) (fuel free id : Nat) (k : Bytes) (x : LuaValue Double)
    (t : LuaTree Double) (L : LuaState Double) : Prop :=
  ∃ y L' u, setAndGet context fuel free id k x L = (.ok [y], L') ∧ Holds L'.tables 0 y u ∧ t.Same u

omit [DecidableEq Double] in
private theorem held_holding (there : id < L.messages.length) (held : List (Bytes × Value Double)) :
    (L.holding id held).messages[id]? = some held :=
  List.getElem?_set_self there

private theorem key_of_survives (there : id < L.messages.length)
    (survives : Survives context fuel free id k x t (L.holding id [])) : cString k ≠ [] := by
  intro key
  obtain ⟨y, L', u, success, holds, -⟩ := survives
  obtain ⟨results, middle, set, get⟩ := Program.bind_ok_iff.mp success
  rw [messageSet_empty key (held_holding there [])] at set
  cases set
  cases messageGet_absent (held_holding there []) rfl get
  exact holds.ne_nil rfl

private theorem kept_of_survives (there : id < L.messages.length) (holds : Holds L.tables 0 x t)
    (deep : readDepth t ≤ fuel)
    (survives : Survives context fuel free id k x t (L.holding id [])) :
    t.Kept context.numbers ∧ t.slots ≤ free := by
  have key := key_of_survives there survives
  obtain ⟨y, L', u, success, held, same⟩ := survives
  obtain ⟨results, middle, set, get⟩ := Program.bind_ok_iff.mp success
  obtain ⟨v, image, -, -, rfl⟩ :=
    (messageSet_ok_iff key (held_holding there []) deep holds).mp set
  have stored : id < (L.holding id []).messages.length := by
    simpa [LuaState.holding] using there
  obtain ⟨last, push, returned, rfl⟩ :=
    (messageGet_ok_iff (held_holding stored _) lookup_assign_self).mp get
  by_cases fine : pushable v = true ∧ slotsOf v ≤ free
  · obtain ⟨y', last', push', pushed, held'⟩ :=
      @pushValue_pushed _ _ context v _ fine.1 (fine.2.trans_eq (free_frame _ _ _).symm)
    rw [push] at push'
    cases push'
    rw [pushed.stack] at returned
    have one : [y] = [y'] := by rw [returned]; simp [LuaState.frame]
    cases one
    cases held.unique held'
    have back := readTree_of_treeValue image fine.1
    have kept := (comesBack_iff holds.distinct).mp ⟨v, back, fine.1, same⟩
    exact ⟨kept, (slotsOf_read holds.distinct kept back) ▸ fine.2⟩
  · -- nothing was pushed, so the key on top of the stack is returned
    rcases (pushValue_ends push).stack with ⟨part, room, -⟩ | none
    · exact absurd ⟨part, room.trans_eq (free_frame _ _ _)⟩ fine
    · rw [none] at returned
      have one : [y] = [.string k] := by rw [returned]; simp [LuaState.frame]
      cases one
      have text : t = .string k := by
        cases u with
        | string s =>
            unfold Holds at held
            cases held
            cases t with
            | string s' =>
                rw [LuaTree.Same] at same
                cases same
                rfl
            | table fields =>
                rw [LuaTree.Same] at same
                obtain ⟨others, other, -⟩ := same
                cases other
            | boolean _ | integer _ | number _ =>
                rw [LuaTree.Same] at same
                cases same
        | table fields =>
            unfold Holds at held
            obtain ⟨ref, entries, other, -⟩ := held
            cases other
        | boolean _ | integer _ | number _ =>
            unfold Holds at held
            cases held
      subst text
      exact absurd none (text_pushed image push)

private theorem survives_of_kept (there : id < L.messages.length) (holds : Holds L.tables 0 x t)
    (deep : readDepth t ≤ fuel) (key : cString k ≠ []) (kept : t.Kept context.numbers)
    (room : t.slots ≤ free) (held : List (Bytes × Value Double)) :
    Survives context fuel free id k x t (L.holding id held) := by
  obtain ⟨v, image, fine, same⟩ := (comesBack_iff holds.distinct).mpr kept
  have slots : slotsOf v ≤ free := (slotsOf_read holds.distinct kept image).trans_le room
  have set := (@messageSet_ok_iff _ _ context fuel free id k x t (L.holding id held) _ held []
    key (held_holding there held) deep holds).mpr
      ⟨v, treeValue_of_readTree image, (readSlots_le t).trans room, rfl, rfl⟩
  have stored : id < (L.holding id held).messages.length := by
    simpa [LuaState.holding] using there
  obtain ⟨y, last, push, pushed, shows⟩ := @pushValue_pushed _ _ context v
    (((L.holding id held).holding id (assign held (cString k) v)).frame free
      [.userdata id, .string k]) fine (slots.trans_eq (free_frame _ _ _).symm)
  have get := (messageGet_ok_iff (held_holding stored _) lookup_assign_self).mpr
    ⟨last, push, rfl, rfl⟩
  have one : last.stack.drop (last.stack.length - 1) = [y] := by
    rw [pushed.stack]
    simp [LuaState.frame]
  rw [one] at get
  exact ⟨y, _, shown v, (Program.bind_ok set).trans get,
    shows.mono (Nat.zero_le _) fun _ _ _ found => found, same⟩

/-- A value comes back from a message, whatever else the message holds, exactly when
the key shows a text, the value is one of those that come back, and the stack has the
slots for it. -/
theorem survives_iff (there : id < L.messages.length) (holds : Holds L.tables 0 x t)
    (deep : readDepth t ≤ fuel) :
    (∀ held, Survives context fuel free id k x t (L.holding id held)) ↔
      cString k ≠ [] ∧ t.Kept context.numbers ∧ t.slots ≤ free := by
  constructor
  · intro all
    exact ⟨key_of_survives there (all []), kept_of_survives there holds deep (all [])⟩
  · rintro ⟨key, kept, room⟩ held
    exact survives_of_kept there holds deep key kept room held

end Survives

/-- A new script message, and a table with a name in it. -/
def newMessage : LuaState Nat :=
  ⟨[], 0, [⟨[(.string (ascii "name"), .string (ascii "bob"))], by decide, by decide⟩], [[]], []⟩

theorem table_survives :
    Survives wholeContext 3 20 0 (ascii "k") (.table 0)
      (.table [(.string (ascii "name"), .string (ascii "bob"))]) (newMessage.holding 0 []) := by
  have holds : Holds newMessage.tables 0 (.table 0)
      (.table [(.string (ascii "name"), .string (ascii "bob"))]) :=
    ⟨0, _, rfl, le_rfl, rfl, _, _, rfl, rfl, rfl⟩
  have kept : (LuaTree.table [(.string (ascii "name"), .string (ascii "bob"))]).Kept
      wholeContext.numbers := by
    refine ⟨⟨fun key member => ?_, 0, by decide, fun i => ?_⟩, ⟨rfl, by decide⟩, trivial⟩
    · cases List.mem_singleton.mp member
      exact .inr ⟨ascii "name", rfl, rfl, by decide, by decide⟩
    · constructor
      · intro member
        cases List.mem_singleton.mp member
      · intro bounds
        omega
  have deep : readDepth (.table [(.string (ascii "name"), .string (ascii "bob"))] : LuaTree Nat) ≤
      3 := by decide
  exact (@survives_iff _ _ wholeContext 3 20 0 (ascii "k") _ _ newMessage (by decide) holds
    deep).mpr ⟨by decide, kept, by decide⟩ []

/-- A flag is stored and not pushed, so that `get` returns its key, and a numeral comes
back as a number. -/
theorem flag_comes_back_as_key :
    ¬Survives wholeContext 3 20 0 (ascii "k") (.boolean true) (.boolean true) newMessage ∧
      (setAndGet wholeContext 3 20 0 (ascii "k") (.boolean true) newMessage).1 =
        .ok [.string (ascii "k")] ∧
      (setAndGet wholeContext 3 20 0 (ascii "k") (.string (ascii "10")) newMessage).1 =
        .ok [.number 10] := by
  have key : (setAndGet wholeContext 3 20 0 (ascii "k") (.boolean true) newMessage).1 =
      .ok [.string (ascii "k")] := rfl
  refine ⟨?_, key, rfl⟩
  rintro ⟨y, L', u, success, holds, same⟩
  rw [success] at key
  cases key
  rw [LuaTree.Same] at same
  subst same
  unfold Holds at holds
  cases holds

end Firestr.Gui
