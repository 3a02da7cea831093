import Mathlib.Order.Lattice
import Mathlib.Logic.Function.Basic
import Mathlib.Tactic.Common

/-! Version vectors as functions from ids to counts, under the pointwise order.
Two of them are concurrent when neither is below the other. -/

set_option autoImplicit false

namespace Firestr.Library.VersionVector

variable {Id : Type} {f g : Id → Nat}

def Concurrent (f g : Id → Nat) : Prop := ¬ f ≤ g ∧ ¬ g ≤ f

theorem Concurrent.ne (concurrent : Concurrent f g) : f ≠ g := fun same =>
  concurrent.1 same.le

theorem Concurrent.symm (concurrent : Concurrent f g) : Concurrent g f :=
  ⟨concurrent.2, concurrent.1⟩

/-- How two version vectors can stand to each other. -/
theorem trichotomy (f g : Id → Nat) : f < g ∨ g < f ∨ f = g ∨ Concurrent f g := by
  by_cases below : f ≤ g
  · rcases below.lt_or_eq with less | same
    · exact .inl less
    · exact .inr (.inr (.inl same))
  · by_cases above : g ≤ f
    · exact .inr (.inl (lt_of_le_not_ge above below))
    · exact .inr (.inr (.inr ⟨below, above⟩))

section Verdict

variable {Value : Type} [Preorder Value] {f g : Id → Value}

open Classical in
/-- How a vector stands to another: 1 if it is greater, -1 if it is less, and 0
otherwise. -/
noncomputable def verdict (f g : Id → Value) : Int :=
  if f < g then -1 else if g < f then 1 else 0

theorem verdict_of_lt (below : f < g) : verdict f g = -1 := if_pos below

theorem verdict_of_gt (above : g < f) : verdict f g = 1 := by
  rw [verdict, if_neg (lt_asymm above), if_pos above]

theorem verdict_of_not (notBelow : ¬f < g) (notAbove : ¬g < f) : verdict f g = 0 := by
  rw [verdict, if_neg notBelow, if_neg notAbove]

theorem verdict_eq_neg_one_iff : verdict f g = -1 ↔ f < g := by
  unfold verdict
  split
  · rename_i below
    exact iff_of_true rfl below
  · rename_i notBelow
    refine iff_of_false ?_ notBelow
    split <;> decide

theorem verdict_eq_one_iff : verdict f g = 1 ↔ g < f := by
  unfold verdict
  split
  · rename_i below
    exact iff_of_false (by decide) (lt_asymm below)
  · split
    · rename_i above
      exact iff_of_true rfl above
    · rename_i notAbove
      exact iff_of_false (by decide) notAbove

theorem verdict_swap (f g : Id → Value) : verdict f g = -verdict g f := by
  by_cases below : f < g
  · rw [verdict_of_lt below, verdict_of_gt below]
  · by_cases above : g < f
    · rw [verdict_of_gt above, verdict_of_lt above]
      rfl
    · rw [verdict_of_not below above, verdict_of_not above below]
      rfl

/-- The verdict depends on the two orders alone. -/
theorem verdict_congr {Other : Type} [Preorder Other] {f' g' : Id → Other}
    (below : f ≤ g ↔ f' ≤ g') (above : g ≤ f ↔ g' ≤ f') : verdict f g = verdict f' g' := by
  have less : f < g ↔ f' < g' := by rw [lt_iff_le_not_ge, lt_iff_le_not_ge, below, above]
  have greater : g < f ↔ g' < f' := by rw [lt_iff_le_not_ge, lt_iff_le_not_ge, below, above]
  by_cases lower : f < g
  · rw [verdict_of_lt lower, verdict_of_lt (less.mp lower)]
  · by_cases higher : g < f
    · rw [verdict_of_gt higher, verdict_of_gt (greater.mp higher)]
    · rw [verdict_of_not lower higher, verdict_of_not (mt less.mpr lower) (mt greater.mpr higher)]

theorem verdict_of_not_le (notBelow : ¬f ≤ g) (notAbove : ¬g ≤ f) : verdict f g = 0 :=
  verdict_of_not (fun below => notBelow below.le) fun above => notAbove above.le

end Verdict

variable [DecidableEq Id]

/-- The vector after one more event of `i`. -/
def tick (f : Id → Nat) (i : Id) : Id → Nat := Function.update f i (f i + 1)

theorem tick_apply (f : Id → Nat) (i other : Id) :
    tick f i other = if other = i then f i + 1 else f other := by
  rw [tick, Function.update_apply]

theorem le_tick (f : Id → Nat) (i : Id) : f ≤ tick f i := by
  intro other
  rw [tick_apply]
  split
  · rename_i same
    rw [same]
    exact Nat.le_succ _
  · exact le_rfl

section Exchange

variable {a b : Id}

theorem tick_sup_own (own : g a ≤ f a) : (tick f a ⊔ g) a = f a + 1 := by
  rw [Pi.sup_apply, tick_apply, if_pos rfl]
  omega

theorem tick_sup_other (different : a ≠ b) (own : f b ≤ g b) : (tick f a ⊔ g) b = g b := by
  rw [Pi.sup_apply, tick_apply, if_neg different.symm]
  omega

/-- When two owners both tick and then take in what the other was, neither has
seen the other's tick. -/
theorem concurrent_exchange (different : a ≠ b) (first : g a ≤ f a) (second : f b ≤ g b) :
    Concurrent (tick f a ⊔ g) (tick g b ⊔ f) := by
  constructor
  · intro below
    have here : (tick f a ⊔ g) a ≤ (tick g b ⊔ f) a := below a
    rw [tick_sup_own first, tick_sup_other different.symm first] at here
    omega
  · intro below
    have here : (tick g b ⊔ f) b ≤ (tick f a ⊔ g) b := below b
    rw [tick_sup_own second, tick_sup_other different second] at here
    omega

end Exchange

end Firestr.Library.VersionVector
