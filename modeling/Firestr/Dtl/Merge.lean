import Firestr.Dtl.DiffScript
import Firestr.Util.CrString

/-! The merge of two versions of a text that come from one base. What is left to
do of each edit script after the other one leads to the same text. -/

set_option autoImplicit false

namespace Firestr.Dtl

open Firestr.Util Firestr.Library.EditScript

variable {Elem : Type}

structure Diff3 (Elem : Type) where
  a : List Elem
  b : List Elem
  c : List Elem
  s : List Elem := []
  diffBa : Diff Elem
  diffBc : Diff Elem
  conflict : Bool := false

namespace Diff3

def new (a b c : List Elem) : Diff3 Elem :=
  { a := a, b := b, c := c, diffBa := .new b a, diffBc := .new b c }

/-- `addDecentSequence`, for what is left of one of the scripts. -/
def addDecentSequence (rest : List (SesElem Elem)) (seq : List Elem) : List Elem :=
  rest.foldl (fun seq e => if e.2.type = .add then seq ++ [e.1] else seq) seq

variable [DecidableEq Elem]

def compose (d : Diff3 Elem) : Outcome (Diff3 Elem) := do
  let diffBa ← d.diffBa.compose
  let diffBc ← d.diffBc.compose
  pure { d with diffBa := diffBa, diffBc := diffBc }

/-- The loops of `merge_`, from two iterators on. There is no sequence when there is a conflict. -/
def mergeFrom : List (SesElem Elem) → List (SesElem Elem) → List Elem →
    Outcome (Option (List Elem))
  | [], bc, seq => pure (some (addDecentSequence bc seq))
  | ba, [], seq => pure (some (addDecentSequence ba seq))
  | x :: ba, y :: bc, seq =>
    match x.2.type, y.2.type with
    -- No branch of the outer loop is for two different items that are common.
    | .common, .common => if x.1 = y.1 then mergeFrom ba bc (seq ++ [x.1]) else .error .diverged
    | .common, .delete => mergeFrom ba bc seq
    | .common, .add => mergeFrom (x :: ba) bc (seq ++ [y.1])
    | .delete, .common => mergeFrom ba bc seq
    | .delete, .delete => if x.1 = y.1 then mergeFrom ba bc seq else pure none
    | .delete, .add => pure none
    | .add, .common => mergeFrom ba (y :: bc) (seq ++ [x.1])
    | .add, .delete => pure none
    | .add, .add => if x.1 = y.1 then mergeFrom ba bc (seq ++ [x.1]) else pure none
termination_by ba bc _ => ba.length + bc.length

/-- `merge_`, which gives the base when there is a conflict. -/
def merge_ (d : Diff3 Elem) : Outcome (List Elem × Diff3 Elem) := do
  match ← mergeFrom d.diffBa.ses d.diffBc.ses [] with
  | none => pure (d.b, { d with conflict := true })
  | some seq => pure (seq, d)

def merge (d : Diff3 Elem) : Outcome (Bool × Diff3 Elem) := do
  if d.diffBa.editDistance = 0 then
    if d.diffBc.editDistance = 0 then pure (true, { d with s := d.b })
    else pure (true, { d with s := d.c })
  else if d.diffBc.editDistance = 0 then pure (true, { d with s := d.a })
  else do
    let (s, d) ← d.merge_
    pure (!d.conflict, { d with s := s })

end Diff3

/-- `util::merge`. -/
def merge (a b c : Bytes) : Outcome (Option Bytes) := do
  let d ← (Diff3.new a b c).compose
  let (merged, d) ← d.merge
  pure (if merged then some d.s else none)

section Loop

open Diff3

theorem edits_delete {e : SesElem Elem} (type : e.2.type = .delete) (ses : List (SesElem Elem)) :
    edits (e :: ses) = .delete e.1 :: edits ses := by
  simp [edits, SesElem.edit, type]

theorem edits_common {e : SesElem Elem} (type : e.2.type = .common) (ses : List (SesElem Elem)) :
    edits (e :: ses) = .keep e.1 :: edits ses := by
  simp [edits, SesElem.edit, type]

theorem edits_add {e : SesElem Elem} (type : e.2.type = .add) (ses : List (SesElem Elem)) :
    edits (e :: ses) = .add e.1 :: edits ses := by
  simp [edits, SesElem.edit, type]

theorem addDecentSequence_spec (rest : List (SesElem Elem)) (seq : List Elem)
    (ended : source (edits rest) = []) :
    addDecentSequence rest seq = seq ++ target (edits rest) := by
  unfold addDecentSequence
  induction rest generalizing seq with
  | nil => simp [edits]
  | cons e rest ih =>
      obtain ⟨e, before, after, type⟩ := e
      cases type with
      | delete | common => simp [edits, SesElem.edit] at ended
      | add => simpa [edits, SesElem.edit] using ih (seq ++ [e]) ended

variable [DecidableEq Elem]

/-- The loops compute the corner of the square. -/
theorem mergeFrom_spec (ba bc : List (SesElem Elem)) (seq : List Elem)
    (base : source (edits ba) = source (edits bc)) :
    mergeFrom ba bc seq =
      .ok ((rebase (edits ba) (edits bc)).map fun r => seq ++ target r.1) := by
  fun_induction mergeFrom ba bc seq with
  | case1 bc seq =>
      have ended : source (edits bc) = [] := by simpa [edits] using base.symm
      rw [addDecentSequence_spec bc seq ended, show edits ([] : List (SesElem Elem)) = [] from rfl,
        rebase_of_free [] _ (by simp [ended]) rfl]
      simp
  | case2 ba seq =>
      have ended : source (edits ba) = [] := by simpa [edits] using base
      rw [addDecentSequence_spec ba seq ended, show edits ([] : List (SesElem Elem)) = [] from rfl,
        rebase_comm [] _ (by simp [ended]), rebase_of_free [] _ (by simp [ended]) rfl]
      rfl
  | case3 x ba y bc seq right left same ih =>
      rw [edits_common left, edits_common right] at base ⊢
      rw [source_keep, source_keep, List.cons.injEq] at base
      rw [ih base.2, rebase]
      simp [Function.comp_def]
  | case4 x ba y bc seq right left different =>
      rw [edits_common left, edits_common right, source_keep, source_keep, List.cons.injEq] at base
      exact absurd base.1 different
  | case5 x ba y bc seq right left ih =>
      rw [edits_common left, edits_delete right] at base ⊢
      rw [source_keep, source_delete, List.cons.injEq] at base
      rw [ih base.2, rebase]
      simp [Function.comp_def]
  | case6 x ba y bc seq right left ih =>
      rw [edits_add right, source_add] at base
      rw [ih base, edits_common left, edits_add right, rebase]
      simp [Function.comp_def]
  | case7 x ba y bc seq right left ih =>
      rw [edits_delete left, edits_common right] at base ⊢
      rw [source_delete, source_keep, List.cons.injEq] at base
      rw [ih base.2, rebase]
      simp [Function.comp_def]
  | case8 x ba y bc seq right left same ih =>
      rw [edits_delete left, edits_delete right] at base ⊢
      rw [source_delete, source_delete, List.cons.injEq] at base
      rw [ih base.2, rebase]
  | case9 x ba y bc seq right left different =>
      rw [edits_delete left, edits_delete right, source_delete, source_delete,
        List.cons.injEq] at base
      exact absurd base.1 different
  | case10 x ba y bc seq right left =>
      rw [edits_delete left, edits_add right, rebase]
      rfl
  | case11 x ba y bc seq right left ih =>
      rw [edits_add left, source_add] at base
      rw [ih base, edits_add left, edits_common right, rebase]
      simp [Function.comp_def]
  | case12 x ba y bc seq right left =>
      rw [edits_add left, edits_delete right, rebase]
      rfl
  | case13 x ba y bc seq right left same ih =>
      rw [edits_add left, edits_add right] at base ⊢
      rw [ih base, rebase, if_pos same]
      simp [Function.comp_def]
  | case14 x ba y bc seq right left different =>
      rw [edits_add left, edits_add right, rebase, if_neg different]
      rfl

end Loop

section Merge

theorem merge_spec (a b c : Bytes) : ∃ ba bc, (Diff.new b a).compose = .ok ba ∧
    (Diff.new b c).compose = .ok bc ∧ Difference b a ba ∧ Difference b c bc ∧
    merge a b c = .ok ((rebase (edits ba.ses) (edits bc.ses)).map fun r => target r.1) := by
  obtain ⟨ba, composed_ba, left⟩ := compose_difference b a
  obtain ⟨bc, composed_bc, right⟩ := compose_difference b c
  refine ⟨ba, bc, composed_ba, composed_bc, left, right, ?_⟩
  have base : source (edits ba.ses) = source (edits bc.ses) :=
    left.source_eq.trans right.source_eq.symm
  have looped := mergeFrom_spec ba.ses bc.ses [] base
  have distance_ba := left.distance
  have distance_bc := right.distance
  simp only [List.nil_append] at looped
  rw [merge, Diff3.compose]
  simp only [Diff3.new, composed_ba, composed_bc, ok_bind, pure_ok, Diff3.merge]
  by_cases same_a : ba.editDistance = 0
  · rw [if_pos same_a, rebase_of_free _ _ base (by omega)]
    by_cases same_c : bc.editDistance = 0
    · rw [if_pos same_c, ok_bind]
      simp [right.target_eq, right.same.mp same_c]
    · rw [if_neg same_c, ok_bind]
      simp [right.target_eq]
  · rw [if_neg same_a]
    by_cases same_c : bc.editDistance = 0
    · rw [if_pos same_c, ok_bind, rebase_comm _ _ base.symm,
        rebase_of_free _ _ base.symm (by omega)]
      simp [left.target_eq]
    · rw [if_neg same_c]
      simp only [Diff3.merge_, looped, ok_bind]
      cases rebase (edits ba.ses) (edits bc.ses) with
      | none => rfl
      | some r => rfl

/-- A merge is the corner of the square of the two edit scripts, if they have one. Neither
shortcut makes a difference. -/
theorem merge_square (a b c : Bytes) : ∃ ba bc, (Diff.new b a).compose = .ok ba ∧
    (Diff.new b c).compose = .ok bc ∧
    merge a b c = .ok ((rebase (edits ba.ses) (edits bc.ses)).map fun r => target r.1) ∧
    ∀ left right, rebase (edits ba.ses) (edits bc.ses) = some (left, right) →
      source left = c ∧ source right = a ∧ Square (edits ba.ses) (edits bc.ses) left right := by
  obtain ⟨ba, bc, composed_ba, composed_bc, from_a, from_c, merged⟩ := merge_spec a b c
  refine ⟨ba, bc, composed_ba, composed_bc, merged, ?_⟩
  intro left right success
  have square := rebase_square (from_a.source_eq.trans from_c.source_eq.symm) success
  exact ⟨square.left.trans from_c.target_eq, square.right.trans from_a.target_eq, square⟩

theorem merge_comm (a b c : Bytes) : merge a b c = merge c b a := by
  obtain ⟨ba, bc, composed_ba, composed_bc, from_a, from_c, merged⟩ := merge_spec a b c
  obtain ⟨bc', ba', composed_bc', composed_ba', -, -, merged'⟩ := merge_spec c b a
  rw [composed_ba, Except.ok.injEq] at composed_ba'
  rw [composed_bc, Except.ok.injEq] at composed_bc'
  subst composed_ba' composed_bc'
  have base := from_a.source_eq.trans from_c.source_eq.symm
  rw [merged, merged', rebase_comm _ _ base]
  cases success : rebase (edits ba.ses) (edits bc.ses) with
  | none => rfl
  | some r => simp [(rebase_square base success).meets]

theorem merge_self (a b : Bytes) : merge a b a = .ok (some a) := by
  obtain ⟨ba, bc, composed_ba, composed_bc, from_a, -, merged⟩ := merge_spec a b a
  rw [composed_ba, Except.ok.injEq] at composed_bc
  subst composed_bc
  rw [merged, rebase_self]
  simp [from_a.target_eq]

theorem merge_base (b c : Bytes) : merge b b c = .ok (some c) := by
  obtain ⟨ba, bc, -, -, from_b, from_c, merged⟩ := merge_spec b b c
  have free := from_b.same.mpr rfl
  have distance := from_b.distance
  rw [merged, rebase_of_free _ _ (from_b.source_eq.trans from_c.source_eq.symm) (by omega)]
  simp [from_c.target_eq]

/-- Which of the versions is which does not matter. One change is kept, and so are two changes
that are the same. -/
theorem merge_versions (a b c : Bytes) : merge a b c = merge c b a ∧
    merge a b a = .ok (some a) ∧ merge b b c = .ok (some c) ∧ merge a b b = .ok (some a) :=
  ⟨merge_comm a b c, merge_self a b, merge_base b c, (merge_comm a b b).trans (merge_base b a)⟩

/-- What is merged, if there is no conflict. -/
def merged (a b c : Bytes) : Option Bytes :=
  match merge a b c with
  | .ok result => result
  | .error _ => none

theorem merged_same (a b : Bytes) : merged a b a = some a := by
  rw [merged, merge_self]

/-- The merge that `cr_string` uses. -/
def dtl : Firestr.Util.Dtl where
  merge := merged
  merge_same := merged_same

end Merge

end Firestr.Dtl
