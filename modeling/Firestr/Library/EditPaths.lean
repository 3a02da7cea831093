import Mathlib.Algebra.Order.Group.Int
import Firestr.Library.EditScript

/-! The paths of edit scripts through the grid of two lists. A path is on the
diagonal that is the difference of what it has used of the two, and how far the
paths on a diagonal come follows from the diagonals beside it. -/

set_option autoImplicit false

namespace Firestr.Library.EditScript

variable {Item : Type}

/-- `Path a b x y d`: a script for the first `x` items of `a` that makes the first `y` items of
`b` of them, with `d` deletions. -/
inductive Path (a b : List Item) : Nat → Nat → Nat → Prop where
  | start : Path a b 0 0 0
  | delete {x y d : Nat} : Path a b x y d → x < a.length → Path a b (x + 1) y (d + 1)
  | add {x y d : Nat} : Path a b x y d → y < b.length → Path a b x (y + 1) d
  | keep {x y d : Nat} : Path a b x y d → x < a.length → y < b.length → a[x]? = b[y]? →
      Path a b (x + 1) (y + 1) d

variable {a b : List Item}

theorem Path.inside {x y d : Nat} (path : Path a b x y d) :
    x ≤ a.length ∧ y ≤ b.length ∧ x ≤ y + d := by
  induction path with
  | start => simp
  | delete _ here ih => omega
  | add _ here ih => omega
  | keep _ left right _ ih => omega

/-- Everything deleted, and then everything added. -/
theorem Path.through : Path a b a.length b.length a.length := by
  have down : ∀ x ≤ a.length, Path a b x 0 x := by
    intro x
    induction x with
    | zero => exact fun _ => .start
    | succ x ih => exact fun here => (ih (by omega)).delete here
  have across : ∀ y ≤ b.length, Path a b a.length y a.length := by
    intro y
    induction y with
    | zero => exact fun _ => down _ (Nat.le_refl _)
    | succ y ih => exact fun here => (ih (by omega)).add here
  exact across _ (Nat.le_refl _)

theorem Path.of_prefix (s rest : List (Edit Item)) (from_a : source s ++ source rest = a)
    (to_b : target s ++ target rest = b) :
    Path a b (source s).length (target s).length (deleted s).length := by
  induction s using List.reverseRecOn generalizing rest with
  | nil => exact .start
  | append_singleton s e ih =>
      have earlier := ih (e :: rest)
      cases e with
      | delete x =>
          simp only [source_append, source_delete, source_nil, target_append, target_delete,
            target_nil, List.append_nil, List.append_assoc, List.singleton_append] at from_a to_b
          have path := earlier (by simpa using from_a) (by simpa using to_b)
          simpa using path.delete (by simp [← from_a])
      | add x =>
          simp only [source_append, source_add, source_nil, target_append, target_add,
            target_nil, List.append_nil, List.append_assoc, List.singleton_append] at from_a to_b
          have path := earlier (by simpa using from_a) (by simpa using to_b)
          simpa using path.add (by simp [← to_b])
      | keep x =>
          simp only [source_append, source_keep, source_nil, target_append, target_keep,
            target_nil, List.append_assoc, List.singleton_append] at from_a to_b
          have path := earlier (by simpa using from_a) (by simpa using to_b)
          simpa using path.keep (by simp [← from_a]) (by simp [← to_b]) (by simp [← from_a, ← to_b])

theorem Path.of_script (s : List (Edit Item)) :
    Path (source s) (target s) (source s).length (target s).length (deleted s).length :=
  Path.of_prefix s [] (by simp) (by simp)

/-- No path on the diagonal with at most that many deletions comes further than `reach`. -/
def Bounds (a b : List Item) (diagonal limit reach : Int) : Prop :=
  ∀ x y d : Nat, Path a b x y d → (y : Int) - x = diagonal → (d : Int) ≤ limit → (y : Int) ≤ reach

theorem Bounds.of_lt {diagonal limit reach : Int} (far : diagonal < -limit) :
    Bounds a b diagonal limit reach := by
  intro x y d path on few
  have near := path.inside
  omega

theorem Bounds.of_neg {diagonal limit reach : Int} (negative : limit < 0) :
    Bounds a b diagonal limit reach := by
  intro x y d path on few
  omega

/-- The diagonals beside bound the paths on the one between, if what is reached there is the
end of a run of equal items. -/
theorem Bounds.step {diagonal limit above below reach : Int}
    (left : Bounds a b (diagonal - 1) limit above) (right : Bounds a b (diagonal + 1) (limit - 1) below)
    (beyond_left : above + 1 ≤ reach) (beyond_right : below ≤ reach) (beyond_start : 0 ≤ reach)
    (maximal : ∀ x y : Nat, (y : Int) = reach → (y : Int) - x = diagonal → x < a.length →
      y < b.length → a[x]? ≠ b[y]?) : Bounds a b diagonal limit reach := by
  intro x y d path on few
  induction path with
  | start => exact beyond_start
  | @delete x y d path here ih =>
      have far := right x y d path (by omega) (by omega)
      omega
  | @add x y d path here ih =>
      have far := left x y d path (by omega) few
      omega
  | @keep x y d path here there same ih =>
      have far := ih (by omega) few
      have short : (y : Int) ≠ reach := fun equal => maximal x y equal (by omega) here there same
      omega

end Firestr.Library.EditScript
