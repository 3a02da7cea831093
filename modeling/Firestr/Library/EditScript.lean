import Mathlib.Data.List.Infix
import Mathlib.Tactic.Common

/-! Edit scripts that make one list of another, their cost, and two scripts for
one list: what is left of each to do after the other. -/

set_option autoImplicit false

namespace Firestr.Library.EditScript

variable {Item : Type}

inductive Edit (Item : Type) where
  | delete (x : Item)
  | keep (x : Item)
  | add (x : Item)
  deriving DecidableEq, Repr

namespace Edit

def old : Edit Item → Option Item
  | delete x | keep x => some x
  | add _ => none

def new : Edit Item → Option Item
  | keep x | add x => some x
  | delete _ => none

def same : Edit Item → Option Item
  | keep x => some x
  | delete _ | add _ => none

def gone : Edit Item → Option Item
  | delete x => some x
  | keep _ | add _ => none

def fresh : Edit Item → Option Item
  | add x => some x
  | keep _ | delete _ => none

/-- The edit that undoes this one. -/
def undo : Edit Item → Edit Item
  | delete x => add x
  | keep x => keep x
  | add x => delete x

@[simp] theorem old_undo (e : Edit Item) : e.undo.old = e.new := by cases e <;> rfl

@[simp] theorem new_undo (e : Edit Item) : e.undo.new = e.old := by cases e <;> rfl

@[simp] theorem same_undo (e : Edit Item) : e.undo.same = e.same := by cases e <;> rfl

@[simp] theorem gone_undo (e : Edit Item) : e.undo.gone = e.fresh := by cases e <;> rfl

@[simp] theorem fresh_undo (e : Edit Item) : e.undo.fresh = e.gone := by cases e <;> rfl

end Edit

section Script

/-- What a script is for. -/
def source (s : List (Edit Item)) : List Item := s.filterMap Edit.old

/-- What a script makes of it. -/
def target (s : List (Edit Item)) : List Item := s.filterMap Edit.new

def kept (s : List (Edit Item)) : List Item := s.filterMap Edit.same

def deleted (s : List (Edit Item)) : List Item := s.filterMap Edit.gone

def added (s : List (Edit Item)) : List Item := s.filterMap Edit.fresh

def cost (s : List (Edit Item)) : Nat := (deleted s).length + (added s).length

variable (s t : List (Edit Item)) (x : Item)

@[simp] theorem source_append : source (s ++ t) = source s ++ source t := List.filterMap_append
@[simp] theorem target_append : target (s ++ t) = target s ++ target t := List.filterMap_append
@[simp] theorem kept_append : kept (s ++ t) = kept s ++ kept t := List.filterMap_append
@[simp] theorem deleted_append : deleted (s ++ t) = deleted s ++ deleted t := List.filterMap_append
@[simp] theorem added_append : added (s ++ t) = added s ++ added t := List.filterMap_append

@[simp] theorem source_nil : source ([] : List (Edit Item)) = [] := rfl
@[simp] theorem source_delete : source (.delete x :: s) = x :: source s := rfl
@[simp] theorem source_keep : source (.keep x :: s) = x :: source s := rfl
@[simp] theorem source_add : source (.add x :: s) = source s := rfl

@[simp] theorem target_nil : target ([] : List (Edit Item)) = [] := rfl
@[simp] theorem target_delete : target (.delete x :: s) = target s := rfl
@[simp] theorem target_keep : target (.keep x :: s) = x :: target s := rfl
@[simp] theorem target_add : target (.add x :: s) = x :: target s := rfl

@[simp] theorem kept_nil : kept ([] : List (Edit Item)) = [] := rfl
@[simp] theorem kept_delete : kept (.delete x :: s) = kept s := rfl
@[simp] theorem kept_keep : kept (.keep x :: s) = x :: kept s := rfl
@[simp] theorem kept_add : kept (.add x :: s) = kept s := rfl

@[simp] theorem deleted_nil : deleted ([] : List (Edit Item)) = [] := rfl
@[simp] theorem deleted_delete : deleted (.delete x :: s) = x :: deleted s := rfl
@[simp] theorem deleted_keep : deleted (.keep x :: s) = deleted s := rfl
@[simp] theorem deleted_add : deleted (.add x :: s) = deleted s := rfl

@[simp] theorem added_nil : added ([] : List (Edit Item)) = [] := rfl
@[simp] theorem added_delete : added (.delete x :: s) = added s := rfl
@[simp] theorem added_keep : added (.keep x :: s) = added s := rfl
@[simp] theorem added_add : added (.add x :: s) = x :: added s := rfl

@[simp] theorem source_undo : source (s.map Edit.undo) = target s := by
  simp [source, target, List.filterMap_map]

@[simp] theorem target_undo : target (s.map Edit.undo) = source s := by
  simp [source, target, List.filterMap_map]

@[simp] theorem kept_undo : kept (s.map Edit.undo) = kept s := by
  simp [kept, List.filterMap_map]

@[simp] theorem deleted_undo : deleted (s.map Edit.undo) = added s := by
  simp [deleted, added, List.filterMap_map]

@[simp] theorem added_undo : added (s.map Edit.undo) = deleted s := by
  simp [deleted, added, List.filterMap_map]

theorem cost_undo : cost (s.map Edit.undo) = cost s := by
  rw [cost, deleted_undo, added_undo, Nat.add_comm, ← cost]

theorem length_source : (source s).length = (deleted s).length + (kept s).length := by
  induction s with
  | nil => rfl
  | cons e s ih => cases e <;> simp [ih] <;> omega

theorem length_target : (target s).length = (added s).length + (kept s).length := by
  rw [← source_undo, length_source, deleted_undo, kept_undo]

theorem kept_sublist_source : (kept s).Sublist (source s) := by
  induction s with
  | nil => exact .slnil
  | cons e s ih =>
      cases e with
      | delete x => exact ih.cons x
      | keep x => exact ih.cons_cons x
      | add x => exact ih

theorem kept_sublist_target : (kept s).Sublist (target s) := by
  rw [← source_undo, ← kept_undo]
  exact kept_sublist_source _

/-- A script without edits keeps everything. -/
theorem source_eq_target {s : List (Edit Item)} (free : cost s = 0) : source s = target s := by
  induction s with
  | nil => rfl
  | cons e s ih =>
      cases e with
      | delete x | add x => simp [cost] at free
      | keep x => rw [source_keep, target_keep, ih (by simpa [cost] using free)]

theorem cost_add_kept : cost s + 2 * (kept s).length = (source s).length + (target s).length := by
  rw [length_source, length_target, cost]
  omega

def keepAll (items : List Item) : List (Edit Item) := items.map .keep

def addAll (items : List Item) : List (Edit Item) := items.map .add

variable (items : List Item)

@[simp] theorem source_keepAll : source (keepAll items) = items := by
  simp [source, keepAll, List.filterMap_map, Function.comp_def, Edit.old]

@[simp] theorem target_keepAll : target (keepAll items) = items := by
  simp [target, keepAll, List.filterMap_map, Function.comp_def, Edit.new]

@[simp] theorem deleted_keepAll : deleted (keepAll items) = [] := by
  simp [deleted, keepAll, List.filterMap_map, Function.comp_def, Edit.gone]

@[simp] theorem source_addAll : source (addAll items) = [] := by
  simp [source, addAll, List.filterMap_map, Function.comp_def, Edit.old]

@[simp] theorem target_addAll : target (addAll items) = items := by
  simp [target, addAll, List.filterMap_map, Function.comp_def, Edit.new]

@[simp] theorem kept_addAll : kept (addAll items) = [] := by
  simp [kept, addAll, List.filterMap_map, Function.comp_def, Edit.same]

/-- Every common subsequence is what some script keeps. -/
theorem exists_keeping {common a b : List Item} (left : common.Sublist a)
    (right : common.Sublist b) : ∃ s, source s = a ∧ target s = b ∧ kept s = common := by
  induction left generalizing b with
  | slnil => exact ⟨addAll b, by simp⟩
  | cons x left ih =>
      obtain ⟨s, from_a, to_b, keeps⟩ := ih right
      exact ⟨.delete x :: s, by simp [from_a], to_b, keeps⟩
  | cons_cons x left ih =>
      obtain ⟨front, rest, rfl, found, later⟩ := List.cons_sublist_iff.mp right
      obtain ⟨before, after, rfl⟩ := List.append_of_mem found
      obtain ⟨s, from_a, to_b, keeps⟩ := ih (later.trans (List.sublist_append_right after rest))
      exact ⟨addAll before ++ .keep x :: s, by simp [from_a, to_b, keeps]⟩

end Script

section Square

/-- The two ways around the square meet, and what is left to do adds and deletes nothing that
the script itself does not. What either adds is there in the end. -/
structure Square (s t s' t' : List (Edit Item)) : Prop where
  left : source s' = target t
  right : source t' = target s
  meets : target s' = target t'
  added_left : (added s').Sublist (added s)
  deleted_left : (deleted s').Sublist (deleted s)
  added_right : (added t').Sublist (added t)
  deleted_right : (deleted t').Sublist (deleted t)
  gained_left : (added s).Sublist (target s')
  gained_right : (added t).Sublist (target s')

theorem Square.append {s t s' t' u v u' v' : List (Edit Item)} (first : Square s t s' t')
    (second : Square u v u' v') : Square (s ++ u) (t ++ v) (s' ++ u') (t' ++ v') where
  left := by simp [first.left, second.left]
  right := by simp [first.right, second.right]
  meets := by simp [first.meets, second.meets]
  added_left := by simpa using first.added_left.append second.added_left
  deleted_left := by simpa using first.deleted_left.append second.deleted_left
  added_right := by simpa using first.added_right.append second.added_right
  deleted_right := by simpa using first.deleted_right.append second.deleted_right
  gained_left := by simpa using first.gained_left.append second.gained_left
  gained_right := by simpa using first.gained_right.append second.gained_right

private theorem Square.extend {r : Option (List (Edit Item) × List (Edit Item))}
    {s t s' t' u v u' v' : List (Edit Item)} (head : Square u v u' v')
    (success : r.map (fun r => (u' ++ r.1, v' ++ r.2)) = some (s', t'))
    (later : ∀ s' t', r = some (s', t') → Square s t s' t') : Square (u ++ s) (v ++ t) s' t' := by
  obtain ⟨⟨p, q⟩, rest, rfl, rfl⟩ : ∃ p, r = some p ∧ u' ++ p.1 = s' ∧ v' ++ p.2 = t' := by
    simpa using success
  exact head.append (later p q rest)

end Square

section Rebase

variable [DecidableEq Item]

/-- What is left to do of each of two scripts for one list after the other. They are in
conflict where one adds and the other deletes, and where they add different items. -/
def rebase : List (Edit Item) → List (Edit Item) →
    Option (List (Edit Item) × List (Edit Item))
  | [], [] => some ([], [])
  | .keep x :: s, .keep _ :: t => (rebase s t).map fun r => (.keep x :: r.1, .keep x :: r.2)
  | .keep x :: s, .delete _ :: t => (rebase s t).map fun r => (r.1, .delete x :: r.2)
  | .delete x :: s, .keep _ :: t => (rebase s t).map fun r => (.delete x :: r.1, r.2)
  | .delete _ :: s, .delete _ :: t => rebase s t
  | .add x :: s, .add y :: t =>
    if x = y then (rebase s t).map fun r => (.keep x :: r.1, .keep x :: r.2) else none
  | .add x :: s, .keep y :: t =>
    (rebase s (.keep y :: t)).map fun r => (.add x :: r.1, .keep x :: r.2)
  | .keep y :: s, .add x :: t =>
    (rebase (.keep y :: s) t).map fun r => (.keep x :: r.1, .add x :: r.2)
  | .add x :: s, [] => (rebase s []).map fun r => (.add x :: r.1, .keep x :: r.2)
  | [], .add x :: t => (rebase [] t).map fun r => (.keep x :: r.1, .add x :: r.2)
  | .add _ :: _, .delete _ :: _ | .delete _ :: _, .add _ :: _ => none
  | [], .keep _ :: _ | [], .delete _ :: _ | .keep _ :: _, [] | .delete _ :: _, [] => none
termination_by s t => s.length + t.length

theorem rebase_square {s t s' t' : List (Edit Item)} (base : source s = source t)
    (success : rebase s t = some (s', t')) : Square s t s' t' := by
  fun_induction rebase s t generalizing s' t' with
  | case1 =>
      cases success
      constructor <;> simp
  | case2 x s y t ih =>
      simp only [source_keep, List.cons.injEq] at base
      obtain ⟨rfl, base⟩ := base
      have head : Square [.keep x] [.keep x] [.keep x] [.keep x] := by constructor <;> simp
      exact head.extend success fun _ _ => ih base
  | case3 x s y t ih =>
      simp only [source_keep, source_delete, List.cons.injEq] at base
      obtain ⟨rfl, base⟩ := base
      have head : Square [.keep x] [.delete x] [] [.delete x] := by constructor <;> simp
      exact head.extend success fun _ _ => ih base
  | case4 x s y t ih =>
      simp only [source_keep, source_delete, List.cons.injEq] at base
      obtain ⟨rfl, base⟩ := base
      have head : Square [.delete x] [.keep x] [.delete x] [] := by constructor <;> simp
      exact head.extend success fun _ _ => ih base
  | case5 x s y t ih =>
      simp only [source_delete, List.cons.injEq] at base
      obtain ⟨rfl, base⟩ := base
      have head : Square [.delete x] [.delete x] [] [] := by constructor <;> simp
      exact head.append (ih base success)
  | case6 s x t ih =>
      have head : Square [.add x] [.add x] [.keep x] [.keep x] := by constructor <;> simp
      exact head.extend success fun _ _ => ih base
  | case7 => cases success
  | case8 x s y t ih | case10 x s ih =>
      have head : Square [.add x] [] [.add x] [.keep x] := by constructor <;> simp
      exact head.extend success fun _ _ => ih base
  | case9 y s x t ih | case11 x t ih =>
      have head : Square [] [.add x] [.keep x] [.add x] := by constructor <;> simp
      exact head.extend success fun _ _ => ih base
  | case12 | case13 | case14 | case15 | case16 | case17 => cases success

theorem rebase_comm (s t : List (Edit Item)) (base : source s = source t) :
    rebase t s = (rebase s t).map Prod.swap := by
  fun_induction rebase s t with
  | case1 => rw [rebase]; rfl
  | case2 x s y t ih =>
      simp only [source_keep, List.cons.injEq] at base
      obtain ⟨rfl, base⟩ := base
      rw [rebase, ih base]
      simp [Function.comp_def]
  | case3 x s y t ih | case4 x s y t ih =>
      simp only [source_keep, source_delete, List.cons.injEq] at base
      obtain ⟨rfl, base⟩ := base
      rw [rebase, ih base]
      simp [Function.comp_def]
  | case5 x s y t ih =>
      simp only [source_delete, List.cons.injEq] at base
      rw [rebase, ih base.2]
  | case6 s x t ih =>
      rw [rebase, if_pos rfl, ih base]
      simp [Function.comp_def]
  | case7 x s y t different =>
      rw [rebase, if_neg (Ne.symm different)]
      rfl
  | case8 x s y t ih | case9 x s y t ih =>
      rw [rebase, ih base]
      simp [Function.comp_def]
  | case10 x s ih | case11 x t ih =>
      rw [rebase, ih base]
      simp [Function.comp_def]
  | case12 x s y t | case13 x s y t =>
      rw [rebase]
      rfl
  | case14 | case15 | case16 | case17 => simp at base

/-- Two equal scripts leave nothing to do. -/
theorem rebase_self (s : List (Edit Item)) :
    rebase s s = some (keepAll (target s), keepAll (target s)) := by
  induction s with
  | nil => rw [rebase]; rfl
  | cons e s ih =>
      cases e with
      | delete x => rw [rebase, ih, target_delete]
      | keep x => rw [rebase, ih, target_keep]; rfl
      | add x => rw [rebase, if_pos rfl, ih, target_add]; rfl

/-- A script without edits leaves the other one as it is, and nothing to do for itself. -/
theorem rebase_of_free (s t : List (Edit Item)) (base : source s = source t) (free : cost s = 0) :
    rebase s t = some (keepAll (target t), t) := by
  fun_induction rebase s t with
  | case1 => rfl
  | case2 x s y t ih =>
      simp only [source_keep, List.cons.injEq] at base
      obtain ⟨rfl, base⟩ := base
      rw [ih base (by simpa [cost] using free)]
      rfl
  | case3 x s y t ih =>
      simp only [source_keep, source_delete, List.cons.injEq] at base
      obtain ⟨rfl, base⟩ := base
      rw [ih base (by simpa [cost] using free)]
      rfl
  | case9 y s x t ih =>
      rw [ih base (by simpa [cost] using free)]
      rfl
  | case11 x t ih =>
      rw [ih base free]
      rfl
  | case4 | case5 | case6 | case7 | case8 | case10 | case12 | case13 => simp [cost] at free
  | case14 | case15 | case16 | case17 => simp at base

end Rebase

end Firestr.Library.EditScript
