import Firestr.Util.VClockCompare

/-! Merging tracked clocks. On the clocks that new clocks, increments and merges
make, `+=` is the least upper bound of `<=`. -/

set_option autoImplicit false

namespace Firestr.Util

open Firestr.Library.VersionVector

variable {Id : Type} [DecidableEq Id]

namespace TrackedVClock

/-- `operator <`. -/
def lt (t o : TrackedVClock Id) : Outcome Bool := do
  require (!o.c.empty) "!(o._c.empty())"
  contract .invariant (t.c.has t.i) "_c.has(_i)"
  pure (t.c.lt o.c)

/-- The clocks that can be made, with counts below 2^63. -/
inductive Reached : TrackedVClock Id → Prop where
  | new (i : Id) : Reached (new i)
  | increment {t : TrackedVClock Id} (before : Reached t) (room : t.c.counts t.i + 1 < 2 ^ 63) :
      Reached t.increment
  | add {t o u : TrackedVClock Id} (mine : Reached t) (other : Reached o)
      (success : t.add o = .ok u) : Reached u

/-- Merge each of a list of clocks in turn. -/
def addAll (t : TrackedVClock Id) (others : List (TrackedVClock Id)) :
    Outcome (TrackedVClock Id) :=
  others.foldlM add t

section Formed

variable {t o e : TrackedVClock Id}

theorem Formed.add_eq (mine : t.Formed) (other : o.Formed) : t.add o = .ok (t.joined o) :=
  TrackedVClock.add_eq mine.own other.own

theorem Reached.formed (reached : t.Reached) : t.Formed := by
  induction reached with
  | new i => exact Formed.new i
  | increment _ room ih => exact ih.increment room
  | @add t o u _ _ success mine other =>
      rw [mine.add_eq other] at success
      cases success
      exact mine.joined other

theorem Formed.le_ok_iff (mine : t.Formed) (other : o.Formed) :
    t.le o = .ok true ↔ t.c.counts ≤ o.c.counts := by
  rw [TrackedVClock.le_eq mine.own other.own, Except.ok.injEq,
    VClock.le_iff mine.counted other.counted]

theorem Formed.eq_of_counts (mine : t.Formed) (other : o.Formed)
    (same : t.c.counts = o.c.counts) : t.c = o.c :=
  VClock.eq_of_counts_eq mine.counted other.counted same

theorem counts_joined (t o : TrackedVClock Id) :
    (t.joined o).c.counts = t.c.counts ⊔ o.c.counts :=
  VClock.counts_add t.c o.c

theorem Formed.joined_comm (mine : t.Formed) (other : o.Formed) :
    (t.joined o).c = (o.joined t).c := by
  apply (mine.joined other).eq_of_counts (other.joined mine)
  rw [counts_joined, counts_joined, sup_comm]

theorem Formed.joined_assoc (mine : t.Formed) (other : o.Formed) (last : e.Formed) :
    ((t.joined o).joined e).c = (t.joined (o.joined e)).c := by
  apply ((mine.joined other).joined last).eq_of_counts (mine.joined (other.joined last))
  rw [counts_joined, counts_joined, counts_joined, counts_joined, sup_assoc]

theorem Formed.joined_self (mine : t.Formed) : t.joined t = t := by
  have same : t.c.add t.c = t.c := VClock.add_eq_left mine.counted mine.counted le_rfl
  rw [TrackedVClock.joined, same]

theorem Formed.lt_increment (mine : t.Formed) (room : t.c.counts t.i + 1 < 2 ^ 63) :
    t.lt t.increment = .ok true := by
  have next : t.increment.Formed := mine.increment room
  have ordered : t.c.Comparable t.increment.c :=
    .inl fun k => iff_of_true (mine.counted.small k) (next.counted.small k)
  have below : t.c.counts < t.increment.c.counts := by
    rw [counts_increment room]
    refine lt_of_le_of_ne (le_tick _ _) fun same => ?_
    have here : t.c.counts t.i = tick t.c.counts t.i t.i := congrFun same t.i
    rw [tick_apply, if_pos rfl] at here
    exact Nat.succ_ne_self _ here.symm
  have ownCheck : t.c.has t.i = true := decide_eq_true mine.own
  have notEmpty : (!t.increment.c.empty) = true := not_empty next.own
  simp only [lt, notEmpty, require_true, ok_bind, ownCheck, contract_true, pure_ok]
  rw [(VClock.lt_iff ordered).mpr below]

/-- A run of merges succeeds and gives the join of all clocks. -/
theorem Formed.addAll_ok (mine : t.Formed) {others : List (TrackedVClock Id)}
    (formed : ∀ o ∈ others, Formed o) :
    ∃ u, t.addAll others = .ok u ∧ u.Formed ∧
      u.c.counts = others.foldl (fun f o => f ⊔ o.c.counts) t.c.counts := by
  induction others generalizing t with
  | nil => exact ⟨t, rfl, mine, rfl⟩
  | cons o others ih =>
      have first : o.Formed := formed o List.mem_cons_self
      obtain ⟨u, success, result, value⟩ := ih (mine.joined first)
        fun other member => formed other (List.mem_cons_of_mem _ member)
      refine ⟨u, ?_, result, ?_⟩
      · rw [addAll, List.foldlM_cons, mine.add_eq first, ok_bind]
        exact success
      · rw [List.foldl_cons, ← counts_joined]
        exact value

end Formed

private theorem join_perm {left right : List (TrackedVClock Id)} (same : left.Perm right)
    (start : Id → Nat) :
    left.foldl (fun f o => f ⊔ o.c.counts) start =
      right.foldl (fun f o => f ⊔ o.c.counts) start :=
  same.foldl_eq' (fun o _ e _ f => sup_right_comm f o.c.counts e.c.counts) start

theorem addAll_perm {t o : TrackedVClock Id} {left right : List (TrackedVClock Id)}
    (same : (t :: left).Perm (o :: right)) (formed : ∀ e ∈ t :: left, Formed e) :
    ∃ u v, t.addAll left = .ok u ∧ o.addAll right = .ok v ∧ u.c = v.c := by
  have mirrored : ∀ e ∈ o :: right, Formed e := fun e member =>
    formed e (same.mem_iff.mpr member)
  obtain ⟨u, success, result, value⟩ := (formed t List.mem_cons_self).addAll_ok
    fun e member => formed e (List.mem_cons_of_mem t member)
  obtain ⟨v, other, ends, meets⟩ := (mirrored o List.mem_cons_self).addAll_ok
    fun e member => mirrored e (List.mem_cons_of_mem o member)
  refine ⟨u, v, success, other, result.eq_of_counts ends ?_⟩
  have joins := join_perm same ⊥
  rw [List.foldl_cons, List.foldl_cons, bot_sup_eq, bot_sup_eq] at joins
  rw [value, meets, joins]

/-- What `+=` is to three clocks: commutative, associative and idempotent on the clock
maps, and the least upper bound for `<=`. -/
structure Joins (t o e : TrackedVClock Id) : Prop where
  commutes : ∃ u v, t.add o = .ok u ∧ o.add t = .ok v ∧ u.c = v.c
  associates : ∃ u v left right, t.add o = .ok u ∧ u.add e = .ok left ∧
    o.add e = .ok v ∧ t.add v = .ok right ∧ left.c = right.c
  idempotent : t.add t = .ok t
  upper : ∃ u, t.add o = .ok u ∧ t.le u = .ok true ∧ o.le u = .ok true
  least : ∃ u, t.add o = .ok u ∧
    (t.le e = .ok true → o.le e = .ok true → u.le e = .ok true)

theorem Formed.joins {t o e : TrackedVClock Id} (mine : t.Formed) (other : o.Formed)
    (last : e.Formed) : Joins t o e where
  commutes := ⟨_, _, mine.add_eq other, other.add_eq mine, mine.joined_comm other⟩
  associates := ⟨_, _, _, _, mine.add_eq other, (mine.joined other).add_eq last,
    other.add_eq last, mine.add_eq (other.joined last), mine.joined_assoc other last⟩
  idempotent := by rw [mine.add_eq mine, mine.joined_self]
  upper := by
    refine ⟨_, mine.add_eq other, ?_, ?_⟩
    · rw [mine.le_ok_iff (mine.joined other), counts_joined]
      exact le_sup_left
    · rw [other.le_ok_iff (mine.joined other), counts_joined]
      exact le_sup_right
  least := by
    refine ⟨_, mine.add_eq other, fun below above => ?_⟩
    rw [(mine.joined other).le_ok_iff last, counts_joined]
    exact sup_le ((mine.le_ok_iff last).mp below) ((other.le_ok_iff last).mp above)

/-- Merge is a join of the reached clocks, an increment makes a greater clock, and the
order in which clocks are merged does not matter. -/
theorem merge_joins {t o e : TrackedVClock Id} (mine : t.Reached) (other : o.Reached)
    (last : e.Reached) :
    Joins t o e ∧
    (t.c.counts t.i + 1 < 2 ^ 63 → t.lt t.increment = .ok true) ∧
    ∀ {left right : List (TrackedVClock Id)}, (t :: left).Perm (o :: right) →
      (∀ other ∈ left, Reached other) →
      ∃ u v, t.addAll left = .ok u ∧ o.addAll right = .ok v ∧ u.c = v.c := by
  refine ⟨mine.formed.joins other.formed last.formed, mine.formed.lt_increment, ?_⟩
  intro left right same reached
  refine addAll_perm same fun clock member => ?_
  rcases List.mem_cons.mp member with rfl | rest
  · exact mine.formed
  · exact (reached clock rest).formed

/-- Two clocks, one incremented, and their merges. -/
theorem merge_joins_two :
    Joins (new 0 : TrackedVClock Nat).increment (new 1) (new 0) :=
  (merge_joins (.increment (.new 0) (by decide)) (.new 1) (.new 0)).1

end TrackedVClock

end Firestr.Util
