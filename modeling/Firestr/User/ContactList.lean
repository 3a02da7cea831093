import Mathlib.Data.Finmap
import Mathlib.Data.List.InsertIdx
import Firestr.Util.Dbc

/-! The contact list: the contacts in order, and an index of their positions.
The operations keep the index right. -/

set_option autoImplicit false

namespace Firestr.User

open Firestr.Util

/-- `contact_list`, where a contact is a pointer that is not null, and several may have one
id. -/
structure PointerList {Pointer : Type} (idOf : Pointer → String) where
  list : List Pointer := []
  map : Finmap fun _ : String => Nat := ∅

namespace PointerList

variable {Pointer : Type} {idOf : Pointer → String}

/-- `_map[c->id()] = i` for every contact. -/
def reassign (idOf : Pointer → String) (list : List Pointer) (map : Finmap fun _ : String => Nat) :
    Finmap fun _ : String => Nat :=
  list.zipIdx.foldl (fun map e => map.insert (idOf e.1) e.2) map

def add [DecidableEq Pointer] (l : PointerList idOf) (c : Pointer) :
    Outcome (Bool × PointerList idOf) := do
  if idOf c ∈ l.map then pure (false, l)
  else do
    let list := l.list ++ [c]
    let map := l.map.insert (idOf c) (list.length - 1)
    ensure (!list.isEmpty) "!(_list.empty())"
    ensure (list.getLast? == some c) "_list.back() == c"
    ensure ((map.lookup (idOf c)).bind (list[·]?) == some c)
      "_list[_map[c->id()]].get() == c.get()"
    pure (true, { list := list, map := map })

def remove (l : PointerList idOf) (c : Pointer) : Outcome (Bool × PointerList idOf) :=
  match l.map.lookup (idOf c) with
  | none => pure (false, l)
  | some i =>
    if i < l.list.length then do
      let list := l.list.eraseIdx i
      let map := reassign idOf list (l.map.erase (idOf c))
      ensure (decide (idOf c ∉ map)) "_map.count(c->id()) == 0"
      ensure (map.keys.card == list.length) "_map.size() == _list.size()"
      pure (true, { list := list, map := map })
    else .error .dangling

def has (l : PointerList idOf) (id : String) : Bool := decide (id ∈ l.map)

def byId (l : PointerList idOf) (id : String) : Outcome (Option Pointer) :=
  match l.map.lookup id with
  | none => .ok none
  | some i =>
    match l.list[i]? with
    | some c => .ok (some c)
    | none => .error .dangling

def get (l : PointerList idOf) (i : Nat) : Option Pointer :=
  if i ≥ l.list.length then none else l.list[i]?

def empty (l : PointerList idOf) : Bool := l.list.isEmpty

def size (l : PointerList idOf) : Outcome Nat := do
  contract .invariant (l.list.length == l.map.keys.card) "_list.size() == _map.size()"
  pure l.list.length

def clear (_ : PointerList idOf) : Outcome (PointerList idOf) := do
  let l : PointerList idOf := { list := [], map := ∅ }
  ensure l.list.isEmpty "_list.empty()"
  ensure (l.map.keys.card == 0) "_map.empty()"
  pure l

/-- `contact_list(const users&)`. -/
def ofUsers [DecidableEq Pointer] (idOf : Pointer → String) (cs : List Pointer) :
    Outcome (PointerList idOf) := do
  let l ← cs.foldlM (fun l c => do
    let (_, l) ← l.add c
    pure l) {}
  ensure (l.list.length == l.map.keys.card) "_list.size() == _map.size()"
  ensure (decide (l.list.length ≤ cs.length)) "_list.size() <= cs.size()"
  pure l

end PointerList

/-- What the services read of a contact. -/
structure UserInfo where
  id : String
  deriving DecidableEq, Repr

abbrev ContactList := PointerList UserInfo.id

def PointerList.ids {Pointer : Type} {idOf : Pointer → String} (l : PointerList idOf) :
    List String :=
  l.list.map idOf

/-- The index maps each id to the position of the contact with it. -/
structure PointerList.Indexed {Pointer : Type} {idOf : Pointer → String} (l : PointerList idOf) :
    Prop where
  distinct : l.ids.Nodup
  index : ∀ id, l.map.lookup id = if id ∈ l.ids then some (l.ids.idxOf id) else none

namespace PointerList

section Indexed

variable {Pointer : Type} {idOf : Pointer → String} {l : PointerList idOf} {c : Pointer}
  {id : String}

theorem Indexed.start : ({} : PointerList idOf).Indexed where
  distinct := List.nodup_nil
  index id := by simp [ids]

theorem Indexed.mem_map (indexed : l.Indexed) : id ∈ l.map ↔ id ∈ l.ids := by
  rw [← Finmap.lookup_isSome, indexed.index]
  split <;> simp_all

theorem Indexed.card_keys (indexed : l.Indexed) : l.map.keys.card = l.list.length := by
  have keys : l.map.keys = l.ids.toFinset := by
    ext id
    rw [Finmap.mem_keys, indexed.mem_map, List.mem_toFinset]
  rw [keys, List.toFinset_card_of_nodup indexed.distinct, ids, List.length_map]

theorem Indexed.size_eq (indexed : l.Indexed) : l.size = .ok l.list.length := by
  simp only [size, indexed.card_keys, beq_self_eq_true, contract_true, ok_bind, pure_ok]

theorem Indexed.byId_of_mem (indexed : l.Indexed) (member : id ∈ l.ids) :
    ∃ c ∈ l.list, idOf c = id ∧ l.byId id = .ok (some c) := by
  have position : l.ids[l.ids.idxOf id]? = some id := List.getElem?_idxOf member
  rw [ids, List.getElem?_map, Option.map_eq_some_iff] at position
  obtain ⟨c, here, same⟩ := position
  refine ⟨c, List.mem_of_getElem? here, same, ?_⟩
  rw [← ids] at here
  simp only [byId, indexed.index, if_pos member, here]

theorem Indexed.byId_of_not_mem (indexed : l.Indexed) (fresh : id ∉ l.ids) :
    l.byId id = .ok none := by
  simp only [byId, indexed.index, if_neg fresh]

def pushed (l : PointerList idOf) (c : Pointer) : PointerList idOf :=
  { list := l.list ++ [c], map := l.map.insert (idOf c) l.list.length }

theorem ids_pushed : (l.pushed c).ids = l.ids ++ [idOf c] := by
  simp [ids, pushed]

theorem Indexed.pushed (indexed : l.Indexed) (fresh : idOf c ∉ l.ids) : (l.pushed c).Indexed where
  distinct := by
    rw [ids_pushed]
    exact List.nodup_append.mpr ⟨indexed.distinct, List.nodup_singleton _, by
      rintro id before other last rfl
      exact fresh (List.mem_singleton.mp last ▸ before)⟩
  index id := by
    rw [ids_pushed, PointerList.pushed]
    by_cases new : id = idOf c
    · subst new
      rw [Finmap.lookup_insert, if_pos (by simp), List.idxOf_append_of_notMem fresh]
      simp [ids]
    · rw [Finmap.lookup_insert_of_ne _ new, indexed.index]
      by_cases member : id ∈ l.ids
      · rw [if_pos member, if_pos (List.mem_append_left _ member), List.idxOf_append_of_mem member]
      · rw [if_neg member, if_neg (by simp [member, new])]

theorem Indexed.add_of_mem [DecidableEq Pointer] (indexed : l.Indexed)
    (member : idOf c ∈ l.ids) : l.add c = .ok (false, l) := by
  rw [add, if_pos (indexed.mem_map.mpr member)]
  rfl

theorem Indexed.add_of_not_mem [DecidableEq Pointer] (indexed : l.Indexed)
    (fresh : idOf c ∉ l.ids) : l.add c = .ok (true, l.pushed c) := by
  have unseen : idOf c ∉ l.map := fun seen => fresh (indexed.mem_map.mp seen)
  have some? : (l.list ++ [c]).isEmpty = false := by simp
  simp [add, unseen, PointerList.pushed, some?]

theorem Indexed.ofUsers [DecidableEq Pointer] {cs : List Pointer} {contacts : PointerList idOf}
    (success : ofUsers idOf cs = .ok contacts) : contacts.Indexed := by
  have folded : ∀ {start filled : PointerList idOf}, start.Indexed →
      cs.foldlM (fun l c => do
        let (_, l) ← l.add c
        pure l) start = Except.ok (ε := Fault) filled → filled.Indexed := by
    clear success
    induction cs with
    | nil =>
        rintro start filled indexed ⟨⟩
        exact indexed
    | cons c cs ih =>
        intro start filled indexed success
        rw [List.foldlM_cons] at success
        by_cases member : idOf c ∈ start.ids
        · rw [indexed.add_of_mem member] at success
          exact ih indexed success
        · rw [indexed.add_of_not_mem member] at success
          exact ih (indexed.pushed member) success
  obtain ⟨filled, filling, success⟩ := bind_ok success
  obtain ⟨_, -, success⟩ := bind_ok success
  obtain ⟨_, -, success⟩ := bind_ok success
  cases success
  exact folded .start filling

private theorem lookup_reassign (list : List Pointer) (distinct : (list.map idOf).Nodup)
    (start : Nat) (map : Finmap fun _ : String => Nat) :
    ((list.zipIdx start).foldl (fun map e => map.insert (idOf e.1) e.2) map).lookup id =
      if id ∈ list.map idOf then some (start + (list.map idOf).idxOf id)
      else map.lookup id := by
  induction list generalizing start map with
  | nil => rfl
  | cons c list ih =>
      rw [List.map_cons, List.nodup_cons] at distinct
      rw [List.zipIdx_cons, List.foldl_cons, ih distinct.2, List.map_cons]
      by_cases here : id = idOf c
      · subst here
        rw [if_neg distinct.1, Finmap.lookup_insert, if_pos List.mem_cons_self,
          List.idxOf_cons_self, Nat.add_zero]
      · by_cases later : id ∈ list.map idOf
        · rw [if_pos later, if_pos (.tail _ later), List.idxOf_cons_ne _ (Ne.symm here)]
          congr 1
          omega
        · rw [if_neg later, if_neg (by simp [here, later]), Finmap.lookup_insert_of_ne _ here]

/-- The list without the contact that has the id of `c`. -/
def erased (l : PointerList idOf) (c : Pointer) : PointerList idOf :=
  { list := l.list.eraseIdx (l.ids.idxOf (idOf c))
    map := reassign idOf (l.list.eraseIdx (l.ids.idxOf (idOf c))) (l.map.erase (idOf c)) }

theorem ids_erased : (l.erased c).ids = l.ids.erase (idOf c) := by
  rw [List.erase_eq_eraseIdx_of_idxOf rfl]
  exact (List.eraseIdx_map ..).symm

theorem Indexed.erased (indexed : l.Indexed) : (l.erased c).Indexed where
  distinct := by
    rw [ids_erased]
    exact indexed.distinct.erase _
  index id := by
    have distinct : (l.erased c).ids.Nodup := by
      rw [ids_erased]
      exact indexed.distinct.erase _
    have lookup : (l.erased c).map.lookup id =
        if id ∈ (l.erased c).ids then some (0 + (l.erased c).ids.idxOf id)
        else (l.map.erase (idOf c)).lookup id := lookup_reassign (l.erased c).list distinct 0 _
    rw [lookup, Nat.zero_add]
    by_cases member : id ∈ (l.erased c).ids
    · rw [if_pos member, if_pos member]
    · rw [if_neg member, if_neg member]
      by_cases removed : id = idOf c
      · rw [removed, Finmap.lookup_erase]
      · rw [ids_erased, indexed.distinct.mem_erase_iff] at member
        rw [Finmap.lookup_erase_ne removed, indexed.index,
          if_neg fun before => member ⟨removed, before⟩]

theorem Indexed.remove_of_mem (indexed : l.Indexed) (member : idOf c ∈ l.ids) :
    l.remove c = .ok (true, l.erased c) := by
  have position : l.ids.idxOf (idOf c) < l.list.length := by
    have inside := List.idxOf_lt_length_of_mem member
    rwa [ids, List.length_map] at inside
  have erased : (l.erased c).Indexed := indexed.erased
  have gone : idOf c ∉ (l.erased c).map := by
    rw [erased.mem_map, ids_erased, indexed.distinct.mem_erase_iff]
    exact fun still => still.1 rfl
  have card := erased.card_keys
  rw [PointerList.erased] at gone card
  simp only [remove, indexed.index, if_pos member, if_pos position, decide_eq_true gone, card,
    beq_self_eq_true, ensure_true, ok_bind, pure_ok]
  rfl

theorem Indexed.remove_of_not_mem (indexed : l.Indexed) (absent : idOf c ∉ l.ids) :
    l.remove c = .ok (false, l) := by
  simp only [remove, indexed.index, if_neg absent]
  rfl

end Indexed

end PointerList

end Firestr.User
