import Mathlib.Tactic.Common

/-! Collecting a set of needed items over and over. A collector keeps what has
arrived since it was last complete, and starts afresh when it has every needed
item. It completes twice exactly when the arrivals can be cut in two parts that
each contain every needed item. -/

set_option autoImplicit false

namespace Firestr.Library.Rounds

variable {Item : Type}

/-- Every needed item is among `items`. -/
def Covers (needed : Item → Prop) (items : List Item) : Prop :=
  ∀ item, needed item → item ∈ items

/-- `Collected needed arrivals rounds kept`: after `arrivals` the collector has
been complete `rounds` times, and `kept` has arrived since. -/
inductive Collected (needed : Item → Prop) : List Item → Nat → List Item → Prop where
  | start : Collected needed [] 0 []
  | more {arrivals kept : List Item} {rounds : Nat} {item : Item} :
      Collected needed arrivals rounds kept → ¬ Covers needed (kept ++ [item]) →
      Collected needed (arrivals ++ [item]) rounds (kept ++ [item])
  | full {arrivals kept : List Item} {rounds : Nat} {item : Item} :
      Collected needed arrivals rounds kept → Covers needed (kept ++ [item]) →
      Collected needed (arrivals ++ [item]) (rounds + 1) []

variable {needed : Item → Prop} {arrivals kept : List Item} {rounds : Nat}

theorem Covers.mono {items more : List Item} (covers : Covers needed items)
    (subset : ∀ item ∈ items, item ∈ more) : Covers needed more :=
  fun item need => subset item (covers item need)

theorem Collected.not_covers (some? : ∃ item, needed item)
    (collected : Collected needed arrivals rounds kept) : ¬ Covers needed kept := by
  cases collected with
  | more _ missing => exact missing
  | start | full =>
      obtain ⟨item, need⟩ := some?
      intro covers
      cases covers item need

private theorem Collected.parts (collected : Collected needed arrivals rounds kept) :
    ∃ done, arrivals = done ++ kept ∧ (1 ≤ rounds → Covers needed done) ∧
      (2 ≤ rounds → ∃ first second, done = first ++ second ∧
        Covers needed first ∧ Covers needed second) := by
  induction collected with
  | start => exact ⟨[], rfl, by omega, by omega⟩
  | more _ _ ih =>
      obtain ⟨done, rfl, once, twice⟩ := ih
      exact ⟨done, List.append_assoc .., once, twice⟩
  | @full arrivals kept rounds item _ covers ih =>
      obtain ⟨done, rfl, once, -⟩ := ih
      refine ⟨done ++ (kept ++ [item]), by simp, fun _ => ?_, fun two => ?_⟩
      · exact covers.mono fun _ member => List.mem_append_right _ member
      · exact ⟨done, kept ++ [item], rfl, once (by omega), covers⟩

private theorem Collected.kept_of_zero (collected : Collected needed arrivals rounds kept)
    (zero : rounds = 0) : kept = arrivals := by
  induction collected with
  | start => rfl
  | more _ _ ih => rw [ih zero]
  | full => omega

private theorem Collected.first_round (some? : ∃ item, needed item)
    (collected : Collected needed arrivals rounds kept) (one : rounds = 1) :
    ∃ before item, arrivals = before ++ item :: kept ∧ ¬ Covers needed before := by
  induction collected with
  | start => omega
  | more _ _ ih =>
      obtain ⟨before, item, rfl, missing⟩ := ih one
      exact ⟨before, item, by simp, missing⟩
  | @full arrivals kept rounds item earlier _ _ =>
      have zero : rounds = 0 := by omega
      have missing := earlier.not_covers some?
      rw [earlier.kept_of_zero zero] at missing
      exact ⟨arrivals, item, rfl, missing⟩

/-- The collector completes twice exactly when the arrivals can be cut in two
covering parts. -/
theorem Collected.two_le_iff (some? : ∃ item, needed item)
    (collected : Collected needed arrivals rounds kept) :
    2 ≤ rounds ↔ ∃ first second, arrivals = first ++ second ∧
      Covers needed first ∧ Covers needed second := by
  constructor
  · intro two
    obtain ⟨done, rfl, -, twice⟩ := collected.parts
    obtain ⟨first, second, rfl, coversFirst, coversSecond⟩ := twice two
    exact ⟨first, second ++ kept, List.append_assoc .., coversFirst,
      coversSecond.mono fun _ member => List.mem_append_left _ member⟩
  · rintro ⟨first, second, cut, coversFirst, coversSecond⟩
    by_contra fewer
    have open? := collected.not_covers some?
    rcases (show rounds = 0 ∨ rounds = 1 by omega) with zero | one
    · refine open? (coversFirst.mono fun item member => ?_)
      rw [collected.kept_of_zero zero, cut]
      exact List.mem_append_left _ member
    · obtain ⟨before, item, split, missing⟩ := collected.first_round some? one
      rcases List.append_eq_append_iff.mp (cut.symm.trans split) with
        ⟨middle, rfl, -⟩ | ⟨middle, rfl, rest⟩
      · exact missing (coversFirst.mono fun _ member => List.mem_append_left _ member)
      · cases middle with
        | nil =>
            refine missing (coversFirst.mono fun _ member => ?_)
            simpa using member
        | cons head middle =>
            rw [List.cons_append, List.cons.injEq] at rest
            refine open? (coversSecond.mono fun _ member => ?_)
            rw [rest.2]
            exact List.mem_append_right _ member

end Firestr.Library.Rounds
