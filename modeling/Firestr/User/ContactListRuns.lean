import Firestr.Library.Outcomes
import Firestr.User.ContactList

/-! Sequences of calls on a contact list. -/

set_option autoImplicit false

namespace Firestr.User

open Firestr.Library.Outcomes Firestr.Util

/-- A call that changes the list. -/
inductive ContactOp (Pointer : Type) where
  | add (c : Pointer)
  | remove (c : Pointer)
  | clear
  deriving DecidableEq, Repr

/-- The list, and the contacts that `add` took, in order. -/
structure ContactHistory {Pointer : Type} (idOf : Pointer → String) where
  contacts : PointerList idOf
  added : List Pointer

section Specification

variable {Pointer : Type} (idOf : Pointer → String)

def ContactOp.run [DecidableEq Pointer] (h : ContactHistory idOf) :
    ContactOp Pointer → Outcome (ContactHistory idOf)
  | .add c => do
      let (new, l) ← h.contacts.add c
      pure {
        contacts := l
        added := if new then h.added ++ [c] else h.added }
  | .remove c => do
      let (_, l) ← h.contacts.remove c
      pure { h with contacts := l }
  | .clear => do
      let l ← h.contacts.clear
      pure { h with contacts := l }

/-- What a call does to the contacts, in their order: a contact is taken once for its id. -/
def ContactOp.apply (contacts : List Pointer) : ContactOp Pointer → List Pointer
  | .add c => if idOf c ∈ contacts.map idOf then contacts else contacts ++ [c]
  | .remove c => contacts.filter fun other => idOf other ≠ idOf c
  | .clear => []

/-- The contacts after calls. -/
def keptContacts (ops : List (ContactOp Pointer)) : List Pointer :=
  ops.foldl (ContactOp.apply idOf) []

/-- The list is `contacts`, its map is the inverse of it, and the readers answer by it. -/
structure PointerList.Agrees (l : PointerList idOf) (contacts : List Pointer) : Prop where
  list : l.list = contacts
  distinct : (contacts.map idOf).Nodup
  inverse : ∀ id i, l.map.lookup id = some i ↔ ∃ c, contacts[i]? = some c ∧ idOf c = id
  has : ∀ id, l.has id = true ↔ id ∈ contacts.map idOf
  byId : ∀ id, l.byId id = .ok (contacts.find? fun c => idOf c = id)
  get : ∀ i, l.get i = contacts[i]?
  empty : l.empty = contacts.isEmpty
  size : l.size = .ok contacts.length

end Specification

namespace PointerList

variable {Pointer : Type} {idOf : Pointer → String} {l : PointerList idOf} {c : Pointer}
  {id : String}

/-- The map of a list with an index leads to a contact with the id, which is the only one. -/
theorem Indexed.inverse (indexed : l.Indexed) (id : String) (i : Nat) :
    l.map.lookup id = some i ↔ ∃ c, l.list[i]? = some c ∧ idOf c = id := by
  have position : (∃ c, l.list[i]? = some c ∧ idOf c = id) ↔ l.ids[i]? = some id := by
    rw [ids, List.getElem?_map, Option.map_eq_some_iff]
  rw [position, indexed.index]
  constructor
  · intro found
    split at found
    · rename_i member
      cases found
      exact List.getElem?_idxOf member
    · cases found
  · intro here
    have member := List.mem_of_getElem? here
    obtain ⟨inside, same⟩ := List.getElem?_eq_some_iff.mp here
    rw [if_pos member, ← same, indexed.distinct.idxOf_getElem]

theorem Indexed.agrees (indexed : l.Indexed) : l.Agrees idOf l.list := by
  have inverse := indexed.inverse
  refine ⟨rfl, indexed.distinct, inverse, ?_, ?_, ?_, rfl, indexed.size_eq⟩
  · intro id
    unfold has
    rw [decide_eq_true_eq]
    exact indexed.mem_map
  · intro id
    unfold byId
    cases found : l.map.lookup id with
    | none =>
        have absent : l.list.find? (fun c => idOf c = id) = none := by
          rw [List.find?_eq_none]
          intro c member same
          obtain ⟨i, here⟩ := List.mem_iff_getElem?.mp member
          have there := (inverse id i).mpr ⟨c, here, of_decide_eq_true same⟩
          cases found.symm.trans there
        rw [absent]
    | some i =>
        obtain ⟨c, here, same⟩ := (inverse id i).mp found
        obtain ⟨inside, value⟩ := List.getElem?_eq_some_iff.mp here
        have first : l.list.find? (fun c => idOf c = id) = some c := by
          rw [List.find?_eq_some_iff_getElem]
          refine ⟨decide_eq_true same, i, inside, value, ?_⟩
          intro j before
          have other : idOf l.list[j] ≠ id := by
            intro again
            have there := (inverse id j).mpr ⟨_, List.getElem?_eq_getElem (by omega), again⟩
            cases found.symm.trans there
            exact Nat.lt_irrefl _ before
          simp [other]
        simp only [here, first]
  · intro i
    unfold get
    split
    · rename_i beyond
      exact (List.getElem?_eq_none beyond).symm
    · rfl

/-- Where the ids are distinct, the contact at the position of an id is the one with it. -/
theorem eraseIdx_eq_filter {list : List Pointer} (distinct : (list.map idOf).Nodup)
    (member : id ∈ list.map idOf) :
    list.eraseIdx ((list.map idOf).idxOf id) = list.filter fun other => idOf other ≠ id := by
  induction list with
  | nil => exact absurd member List.not_mem_nil
  | cons first list ih =>
      rw [List.map_cons, List.nodup_cons] at distinct
      by_cases here : idOf first = id
      · subst here
        have rest : ∀ other ∈ list, idOf other ≠ idOf first := fun other inside same =>
          distinct.1 (same ▸ List.mem_map_of_mem inside)
        rw [List.map_cons, List.idxOf_cons_self, List.eraseIdx_cons_zero,
          List.filter_cons_of_neg (by simp), List.filter_eq_self.mpr]
        intro other inside
        exact decide_eq_true (rest other inside)
      · have later : id ∈ list.map idOf := by
          rcases List.mem_cons.mp (List.map_cons ▸ member) with same | later
          · exact absurd same.symm here
          · exact later
        rw [List.map_cons, List.idxOf_cons_ne _ here, List.eraseIdx_cons_succ,
          List.filter_cons_of_pos (by simpa using here), ih distinct.2 later]

end PointerList

section Runs

variable {Pointer : Type} [DecidableEq Pointer] {idOf : Pointer → String}

/-- The list has its index, and its contacts are among the added ones in their order. -/
structure ContactHistory.Kept (h : ContactHistory idOf) (contacts : List Pointer) : Prop where
  indexed : h.contacts.Indexed
  list : h.contacts.list = contacts
  ordered : contacts.Sublist h.added

/-- A call does not fail, and does to the list what it says of the contacts. -/
theorem ContactOp.run_keeps {h : ContactHistory idOf} {contacts : List Pointer}
    (kept : h.Kept contacts) (op : ContactOp Pointer) :
    ∃ next, op.run idOf h = .ok next ∧ next.Kept (op.apply idOf contacts) := by
  obtain ⟨indexed, rfl, ordered⟩ := kept
  cases op with
  | add c =>
      rw [ContactOp.run, ContactOp.apply]
      by_cases member : idOf c ∈ h.contacts.list.map idOf
      · rw [indexed.add_of_mem member, if_pos member]
        exact ⟨_, rfl, indexed, rfl, ordered⟩
      · rw [indexed.add_of_not_mem member, if_neg member]
        exact ⟨_, rfl, indexed.pushed member, rfl, ordered.append (List.Sublist.refl [c])⟩
  | remove c =>
      rw [ContactOp.run, ContactOp.apply]
      by_cases member : idOf c ∈ h.contacts.list.map idOf
      · rw [indexed.remove_of_mem member,
          ← PointerList.eraseIdx_eq_filter indexed.distinct member]
        exact ⟨_, rfl, indexed.erased, rfl, (List.eraseIdx_sublist ..).trans ordered⟩
      · have all : h.contacts.list.filter (fun other => idOf other ≠ idOf c) = h.contacts.list :=
          List.filter_eq_self.mpr fun other inside => decide_eq_true fun same =>
            member (same ▸ List.mem_map_of_mem inside)
        rw [indexed.remove_of_not_mem member, all]
        exact ⟨_, rfl, indexed, rfl, ordered⟩
  | clear => exact ⟨_, rfl, .start, rfl, List.nil_sublist _⟩

theorem run_keeps_all {h : ContactHistory idOf} {contacts : List Pointer}
    (kept : h.Kept contacts) (ops : List (ContactOp Pointer)) :
    ∃ next, ops.foldlM (ContactOp.run idOf) h = .ok next ∧
      next.Kept (ops.foldl (ContactOp.apply idOf) contacts) := by
  induction ops generalizing h contacts with
  | nil => exact ⟨h, rfl, kept⟩
  | cons op ops ih =>
      obtain ⟨between, first, keptFirst⟩ := ContactOp.run_keeps kept op
      obtain ⟨next, rest, keptRest⟩ := ih keptFirst
      refine ⟨next, ?_, keptRest⟩
      rw [List.foldlM_cons, first]
      exact rest

/-- The list of the first contact with each id of `done`. -/
structure PointerList.Filled (done : List Pointer) (l : PointerList idOf) : Prop where
  indexed : l.Indexed
  list : l.list = keptContacts idOf (done.map .add)
  ordered : l.list.Sublist done

theorem PointerList.Filled.add {done : List Pointer} {l : PointerList idOf}
    (filled : Filled done l) (c : Pointer) :
    ∃ next, (do
        let (_, l) ← l.add c
        pure l) = Except.ok (ε := Fault) next ∧ Filled (done ++ [c]) next := by
  obtain ⟨indexed, list, ordered⟩ := filled
  have kept : keptContacts idOf ((done ++ [c]).map .add) =
      if idOf c ∈ l.list.map idOf then l.list else l.list ++ [c] := by
    rw [keptContacts, List.map_append, List.foldl_append, ← keptContacts, ← list]
    rfl
  by_cases member : idOf c ∈ l.list.map idOf
  · rw [if_pos member] at kept
    rw [indexed.add_of_mem member]
    exact ⟨l, rfl, indexed, kept.symm, ordered.trans (List.sublist_append_left ..)⟩
  · rw [if_neg member] at kept
    rw [indexed.add_of_not_mem member]
    exact ⟨l.pushed c, rfl, indexed.pushed member, kept.symm,
      ordered.append (List.Sublist.refl [c])⟩

theorem PointerList.ofUsers_filled (idOf : Pointer → String) (users : List Pointer) :
    ∃ l, PointerList.ofUsers idOf users = .ok l ∧ l.Filled users := by
  have start : ({} : PointerList idOf).Filled [] := ⟨.start, rfl, List.Sublist.refl []⟩
  obtain ⟨l, added, filled⟩ := foldlM_ok Filled users start
    fun done c rest l _ filled => filled.add c
  refine ⟨l, ?_, filled⟩
  have short : decide (l.list.length ≤ users.length) = true :=
    decide_eq_true filled.ordered.length_le
  unfold PointerList.ofUsers
  rw [added, ok_bind, filled.indexed.card_keys, BEq.rfl, ensure_true, ok_bind, short,
    ensure_true, ok_bind, pure_ok]

/-- After every sequence of calls on a list that was built from users, the list is what the
calls say, with its index, in the order of the adds. -/
theorem contact_list_agrees (idOf : Pointer → String) (users : List Pointer)
    (ops : List (ContactOp Pointer)) : ∃ start h,
      PointerList.ofUsers idOf users = .ok start ∧
      ops.foldlM (ContactOp.run idOf) { contacts := start, added := start.list } = .ok h ∧
      h.contacts.Agrees idOf (keptContacts idOf (users.map .add ++ ops)) ∧
      (keptContacts idOf (users.map .add ++ ops)).Sublist h.added := by
  obtain ⟨start, built, indexed, list, -⟩ := PointerList.ofUsers_filled idOf users
  have initial : ContactHistory.Kept { contacts := start, added := start.list } start.list :=
    ⟨indexed, rfl, List.Sublist.refl _⟩
  obtain ⟨h, ran, kept⟩ := run_keeps_all initial ops
  have calls : keptContacts idOf (users.map .add ++ ops) =
      ops.foldl (ContactOp.apply idOf) start.list := by
    rw [keptContacts, List.foldl_append, ← keptContacts, ← list]
  refine ⟨start, h, built, ran, ?_, ?_⟩
  · rw [calls, ← kept.list]
    exact kept.indexed.agrees
  · rw [calls]
    exact kept.ordered

example : keptContacts (fun c : String × Nat => c.1)
    [.add ("ann", 1), .add ("bob", 2), .add ("ann", 3), .add ("cat", 4), .remove ("bob", 5),
      .add ("bob", 6)] = [("ann", 1), ("cat", 4), ("bob", 6)] := by
  decide

end Runs

end Firestr.User
