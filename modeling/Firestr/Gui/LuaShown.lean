import Firestr.Gui.LuaPush

/-! What a pushed table holds under each of its keys. -/

set_option autoImplicit false

namespace Firestr.Gui

open Firestr.Util Firestr.Library.Assoc

variable {Double : Type}

/-- The `int` counter of `push_array` as a key, which wraps after 31 bits. -/
def counter (n : Nat) : LuaValue Double := .integer (Int32.ofNat n).toInt64

theorem counter_toInt {n : Nat} (small : n < 2 ^ 31) : (Int32.ofNat n).toInt64.toInt = n := by
  rw [Int32.toInt_toInt64, Int32.toInt_ofNat_of_lt small]

theorem counter_inj {n m : Nat} (small : n < 2 ^ 31) (small' : m < 2 ^ 31)
    (same : (counter n : LuaValue Double) = counter m) : n = m := by
  injection same with same
  have values := congrArg Int64.toInt same
  rw [counter_toInt small, counter_toInt small'] at values
  exact_mod_cast values

variable [DecidableEq Double] {fields : List (LuaValue Double × LuaTree Double)}
  {key : LuaValue Double}

section Elements

variable {a : List (Value Double)} {n : Nat}

theorem shownElements_cons (v : Value Double) :
    shownElements (Int32.ofNat n) (v :: a) fields =
      shownElements (Int32.ofNat (n + 1)) a (assign fields (counter n) (shown v)) := by
  rw [shownElements, Int32.ofNat_add]
  rfl

theorem mem_keys_shownElements :
    key ∈ (shownElements (Int32.ofNat n) a fields).map (·.1) ↔
      key ∈ fields.map (·.1) ∨ ∃ j < a.length, key = counter (n + j) := by
  induction a generalizing n fields with
  | nil => simp [shownElements]
  | cons v a ih =>
      rw [shownElements_cons, ih, mem_keys_assign]
      constructor
      · rintro ((here | before) | ⟨j, inside, later⟩)
        · exact .inr ⟨0, by simp, here⟩
        · exact .inl before
        · exact .inr ⟨j + 1, by simpa using inside, by rw [later]; congr 1; omega⟩
      · rintro (before | ⟨j, inside, there⟩)
        · exact .inl (.inr before)
        · cases j with
          | zero => exact .inl (.inl there)
          | succ j => exact .inr ⟨j, by simpa using inside, by rw [there]; congr 1; omega⟩

theorem lookup_shownElements_of_ne (other : ∀ j < a.length, key ≠ counter (n + j)) :
    (shownElements (Int32.ofNat n) a fields).lookup key = fields.lookup key := by
  induction a generalizing n fields with
  | nil => rw [shownElements]
  | cons v a ih =>
      rw [shownElements_cons, ih, lookup_assign_of_ne]
      · exact other 0 (by simp)
      · intro j inside
        have later := other (j + 1) (by simpa using inside)
        rw [show n + 1 + j = n + (j + 1) by omega]
        exact later

theorem lookup_shownElements (small : n + a.length ≤ 2 ^ 31) {j : Nat} {v : Value Double}
    (there : a[j]? = some v) :
    (shownElements (Int32.ofNat n) a fields).lookup (counter (n + j)) = some (shown v) := by
  induction a generalizing n j fields with
  | nil => cases there
  | cons w a ih =>
      rw [List.length_cons] at small
      rw [shownElements_cons]
      cases j with
      | zero =>
          cases there
          rw [lookup_shownElements_of_ne, Nat.add_zero, lookup_assign_self]
          intro i inside same
          have := counter_inj (by omega) (by omega) same
          omega
      | succ j =>
          rw [show n + (j + 1) = n + 1 + j by omega]
          exact ih (by omega) there

end Elements

section Entries

variable {entries : List (Bytes × Value Double)}

theorem lookup_shownEntries_of_ne (fine : pushableEntries entries = true)
    (texts : ∀ k v, (k, v) ∈ entries → k ≠ arrayK → key ≠ .string (cString k))
    (indexes : ∀ a, (arrayK, Value.array a) ∈ entries → ∀ j < a.length, key ≠ counter (1 + j)) :
    (shownEntries entries fields).lookup key = fields.lookup key := by
  induction entries generalizing fields with
  | nil => rw [shownEntries]
  | cons e entries ih =>
      obtain ⟨k, v⟩ := e
      rw [pushableEntries, Bool.and_eq_true, Bool.and_eq_true] at fine
      have rest := fun fields => @ih fields fine.2
        (fun k v member => texts k v (List.mem_cons_of_mem _ member))
        (fun a member => indexes a (List.mem_cons_of_mem _ member))
      by_cases special : k = arrayK
      · subst special
        cases v with
        | array a =>
            rw [shownEntries_array, rest]
            exact lookup_shownElements_of_ne (indexes a List.mem_cons_self)
        | empty | bool _ | int _ | size _ | real _ | bytes _ | dict _ => simp [isArray] at fine
      · rw [shownEntries_field special, rest,
          lookup_assign_of_ne (texts k v List.mem_cons_self special)]

theorem mem_keys_shownEntries (fine : pushableEntries entries = true) :
    key ∈ (shownEntries entries fields).map (·.1) ↔ key ∈ fields.map (·.1) ∨
      (∃ k v, (k, v) ∈ entries ∧ k ≠ arrayK ∧ key = .string (cString k)) ∨
      ∃ a, (arrayK, Value.array a) ∈ entries ∧ ∃ j < a.length, key = counter (1 + j) := by
  induction entries generalizing fields with
  | nil => simp [shownEntries]
  | cons e entries ih =>
      obtain ⟨k, v⟩ := e
      rw [pushableEntries, Bool.and_eq_true, Bool.and_eq_true] at fine
      by_cases special : k = arrayK
      · subst special
        cases v with
        | array a =>
            rw [shownEntries_array, ih fine.2]
            have elements := @mem_keys_shownElements _ _ fields key a 1
            rw [show Int32.ofNat 1 = 1 from rfl] at elements
            rw [elements]
            simp only [List.mem_cons, Prod.mk.injEq, Value.array.injEq]
            grind
        | empty | bool _ | int _ | size _ | real _ | bytes _ | dict _ => simp [isArray] at fine
      · rw [shownEntries_field special, ih fine.2, mem_keys_assign]
        simp only [List.mem_cons, Prod.mk.injEq]
        grind

theorem lookup_shownEntries_text (fine : pushableEntries entries = true)
    (distinct : (entries.map (·.1)).Nodup) (texts : ∀ k ∈ entries.map (·.1), 0 ∉ k) {k : Bytes}
    {v : Value Double} (ordinary : k ≠ arrayK) (member : (k, v) ∈ entries) :
    (shownEntries entries fields).lookup (.string k) = some (shown v) := by
  induction entries generalizing fields with
  | nil => cases member
  | cons e entries ih =>
      obtain ⟨k', v'⟩ := e
      rw [pushableEntries, Bool.and_eq_true, Bool.and_eq_true] at fine
      obtain ⟨fresh, distinct⟩ := List.nodup_cons.mp distinct
      have rest := fun fields => @ih fields fine.2 distinct fun k member =>
        texts k (List.mem_cons_of_mem _ member)
      rcases List.mem_cons.mp member with here | later
      · cases here
        have plain : cString k = k := cString_eq_self_iff.mpr (texts k List.mem_cons_self)
        rw [shownEntries_field ordinary, plain, lookup_shownEntries_of_ne fine.2, lookup_assign_self]
        · intro other w inside _ same
          injection same with same
          have plain' : cString other = other := cString_eq_self_iff.mpr
            (texts other (List.mem_cons_of_mem _ (List.mem_map_of_mem inside)))
          rw [plain'] at same
          exact fresh (List.mem_map.mpr ⟨_, inside, same.symm⟩)
        · rintro a _ j _ ⟨⟩
      · by_cases special : k' = arrayK
        · subst special
          cases v' with
          | array a =>
              rw [shownEntries_array]
              exact rest _ later
          | empty | bool _ | int _ | size _ | real _ | bytes _ | dict _ => simp [isArray] at fine
        · rw [shownEntries_field special]
          exact rest _ later

theorem lookup_shownEntries_index (fine : pushableEntries entries = true)
    (distinct : (entries.map (·.1)).Nodup) {a : List (Value Double)}
    (member : (arrayK, Value.array a) ∈ entries) (small : a.length < 2 ^ 31) {j : Nat}
    {v : Value Double} (there : a[j]? = some v) :
    (shownEntries entries fields).lookup (counter (1 + j)) = some (shown v) := by
  induction entries generalizing fields with
  | nil => cases member
  | cons e entries ih =>
      obtain ⟨k', v'⟩ := e
      rw [pushableEntries, Bool.and_eq_true, Bool.and_eq_true] at fine
      obtain ⟨fresh, distinct⟩ := List.nodup_cons.mp distinct
      rcases List.mem_cons.mp member with here | later
      · cases here
        rw [shownEntries_array, lookup_shownEntries_of_ne fine.2]
        · exact @lookup_shownElements _ _ fields a 1 (by omega) j v there
        · rintro k w _ _ ⟨⟩
        · intro b inside
          exact absurd (List.mem_map_of_mem inside) fresh
      · have special : k' ≠ arrayK := by
          rintro rfl
          exact fresh (List.mem_map.mpr ⟨_, later, rfl⟩)
        rw [shownEntries_field special]
        exact ih fine.2 distinct later

end Entries

end Firestr.Gui
