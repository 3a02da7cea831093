import Firestr.Util.CrStringExchange

/-! Replicas in any state they can reach. Each replica knows the most of its
own changes, so two of them that exchange strings converge exactly when one is
newer than the other, or they agree already. -/

set_option autoImplicit false

namespace Firestr.Util

open Firestr.Library.VersionVector Firestr.Library.Runs

variable {Id : Type} [DecidableEq Id]

/-- A string that counts no more of a replica's changes than there are. -/
structure Replicas.Known (r : Replicas Id) (o : CrString Id) : Prop where
  formed : o.Formed
  bounded : ∀ j, o.c.c.counts j ≤ (r.state j).c.c.counts j

/-- Every replica has its own id, and every string in the system is known. -/
structure Replicas.Valid (r : Replicas Id) : Prop where
  named : ∀ i, (r.state i).c.i = i
  states : ∀ i, r.Known (r.state i)
  sent : ∀ o ∈ r.sent, r.Known o

section Valid

variable {dtl : Dtl} {r next : Replicas Id}

private theorem counts_new (i j : Id) :
    (CrString.new i).c.c.counts j = if j = i then 1 else 0 :=
  TrackedVClock.counts_new i j

private theorem formed_new (i : Id) : (CrString.new i).Formed :=
  ⟨(TrackedVClock.Formed.new i).counted, (TrackedVClock.Formed.new i).own⟩

theorem Replicas.Valid.start : ({ state := CrString.new } : Replicas Id).Valid where
  named _ := rfl
  states i := ⟨formed_new i, fun j => by
    rw [counts_new, counts_new, if_pos rfl]
    split <;> omega⟩
  sent _ member := by cases member

private theorem Replicas.Valid.put (valid : r.Valid) {i : Id} {me : CrString Id}
    (formed : me.Formed) (named : me.c.i = i)
    (grown : (r.state i).c.c.counts i ≤ me.c.c.counts i)
    (bounded : ∀ j, j ≠ i → me.c.c.counts j ≤ (r.state j).c.c.counts j) : (r.put i me).Valid := by
  have changed : (r.put i me).state i = me := Function.update_self ..
  have others : ∀ j, j ≠ i → (r.put i me).state j = r.state j := fun j different =>
    Function.update_of_ne different ..
  have keeps : ∀ {o : CrString Id}, r.Known o → (r.put i me).Known o := by
    intro o known
    refine ⟨known.formed, fun j => ?_⟩
    by_cases here : j = i
    · subst here
      rw [changed]
      exact le_trans (known.bounded j) grown
    · rw [others j here]
      exact known.bounded j
  refine ⟨fun j => ?_, fun j => ?_, fun o member => keeps (valid.sent o member)⟩
  · by_cases here : j = i
    · subst here
      rw [changed]
      exact named
    · rw [others j here]
      exact valid.named j
  · by_cases here : j = i
    · subst here
      rw [changed]
      refine ⟨formed, fun k => ?_⟩
      by_cases same : k = j
      · subst same
        rw [changed]
      · rw [others k same]
        exact bounded k same
    · rw [others j here]
      exact keeps (valid.states j)

private theorem Replicas.Valid.increment (valid : r.Valid) {i : Id} (room : (r.state i).Room 1) :
    (r.state i).c.c.counts i ≤ (r.state i).c.increment.c.counts i ∧
      ∀ j, j ≠ i → (r.state i).c.increment.c.counts j ≤ (r.state j).c.c.counts j := by
  rw [TrackedVClock.counts_increment room, valid.named i]
  refine ⟨le_tick _ i i, fun j different => ?_⟩
  rw [tick_apply, if_neg different]
  exact (valid.states i).bounded j

private theorem Replicas.Valid.join (valid : r.Valid) {i : Id} {me o : CrString Id}
    (formed : me.Formed) (named : me.c.i = i)
    (grown : (r.state i).c.c.counts i ≤ me.c.c.counts i)
    (bounded : ∀ j, j ≠ i → me.c.c.counts j ≤ (r.state j).c.c.counts j) (known : r.Known o)
    (s : Bytes) : (r.put i { c := me.c.joined o.c, s := s }).Valid := by
  refine valid.put (formed.joined known.formed) named ?_ fun j different => ?_
  · rw [TrackedVClock.joined, VClock.counts_add]
    exact le_trans grown le_sup_left
  · rw [TrackedVClock.joined, VClock.counts_add]
    exact max_le (bounded j different) (known.bounded j)

theorem Replicas.Valid.step (valid : r.Valid) {event : ReplicaEvent Id}
    (step : ReplicaStep dtl r event next) : next.Valid := by
  cases step with
  | @initSet i s =>
      exact valid.put ⟨(valid.states i).formed.counted, (valid.states i).formed.own⟩
        (valid.named i) le_rfl fun j _ => (valid.states i).bounded j
  | @set i s room =>
      have formed := (valid.states i).formed.incremented room
      obtain ⟨grown, bounded⟩ := valid.increment room
      exact valid.put ⟨formed.counted, formed.own⟩ (valid.named i) grown bounded
  | @send i =>
      have keeps : ∀ {o : CrString Id}, r.Known o →
          Replicas.Known { r with sent := r.state i :: r.sent } o :=
        fun known => ⟨known.formed, known.bounded⟩
      refine ⟨valid.named, fun j => keeps (valid.states j), fun o member => ?_⟩
      rcases List.mem_cons.mp member with rfl | earlier
      · exact keeps (valid.states i)
      · exact keeps (valid.sent o earlier)
  | @merge i o after result member room merged =>
      have mine := (valid.states i).formed
      have known := valid.sent o member
      have unchanged := valid.join mine (valid.named i) le_rfl
        (fun j _ => (valid.states i).bounded j) known
      cases merges_of_merge dtl mine known.formed merged with
      | newer => exact unchanged _
      | stale =>
          exact valid.put mine (valid.named i) le_rfl fun j _ => (valid.states i).bounded j
      | concurrent =>
          obtain ⟨grown, bounded⟩ := valid.increment room
          exact valid.join (mine.incremented room)
            (valid.named i) grown bounded known _

theorem valid_of_run {events : List (ReplicaEvent Id)} (run : ReplicaRun dtl events r) :
    r.Valid := by
  induction run with
  | start started => exact started ▸ .start
  | step _ step ih => exact ih.step step

theorem Replicas.Valid.facing (valid : r.Valid) {a b : Id} (different : a ≠ b) :
    Facing (r.state a, r.state b) where
  different := by
    rw [valid.named, valid.named]
    exact different
  first := (valid.states a).formed
  second := (valid.states b).formed
  firstNewest := by
    rw [valid.named]
    exact (valid.states b).bounded a
  secondNewest := by
    rw [valid.named]
    exact (valid.states a).bounded b

/-- Two replicas that exchange their strings, with no change in between, come
to the same string and identical clocks exactly when one of them is newer by
`compare`, or they agree before. -/
theorem exchanges_converge_iff {events : List (ReplicaEvent Id)} (run : ReplicaRun dtl events r)
    {a b : Id} (different : a ≠ b) (room : Roomy 1 (r.state a, r.state b)) :
    (∃ n after, Roomy n (r.state a, r.state b) ∧
      exchanges dtl n (r.state a, r.state b) = .ok after ∧ Converged after) ↔
      (r.state a).c.c.compare (r.state b).c.c ≠ 0 ∨ Converged (r.state a, r.state b) :=
  ((valid_of_run run).facing different).converge_iff room

end Valid

section TwoReplicas

/-- A `dtl` that takes the first version. -/
def firstVersion : Dtl where
  merge a _ _ := some a
  merge_same _ _ := rfl

def apart : Replicas Bool :=
  (({ state := CrString.new } : Replicas Bool).put false
    ((CrString.new false).initSet (ascii "left"))).put true
    ((CrString.new true).initSet (ascii "right"))

theorem apart_run : ReplicaRun firstVersion
    [.initSet false (ascii "left"), .initSet true (ascii "right")] apart :=
  @Run.step _ _ _ _ [_] _ _ _ (.single rfl .initSet) .initSet

private theorem apart_concurrent :
    Concurrent (apart.state false).c.c.counts (apart.state true).c.c.counts := by
  change Concurrent (CrString.new false).c.c.counts (CrString.new true).c.c.counts
  constructor
  · intro below
    exact absurd (below false) (by rw [counts_new, counts_new]; decide)
  · intro below
    exact absurd (below true) (by rw [counts_new, counts_new]; decide)

def caughtUp : CrString Bool :=
  { c := (apart.state true).c.increment.joined (apart.state false).c
    s := (apart.state false).s }

theorem exchanges_converge_caughtUp : ∃ n after, Roomy n (apart.state false, caughtUp) ∧
    exchanges firstVersion n (apart.state false, caughtUp) = .ok after ∧ Converged after := by
  have valid := valid_of_run apart_run
  have success := merge_concurrent firstVersion (valid.states true).formed
    (valid.states false).formed apart_concurrent.symm
  have run := (apart_run.step (.send (i := false))).step
    (.merge (i := true) List.mem_cons_self (by decide +kernel) success)
  exact (exchanges_converge_iff run (a := false) (b := true) (by decide)
    ⟨by decide +kernel, by decide +kernel⟩).mpr (.inl (by decide +kernel))

/-- Two new replicas never come to the same string. -/
theorem concurrent_replicas_stay_apart : ReplicaRun firstVersion
    [.initSet false (ascii "left"), .initSet true (ascii "right")] apart ∧
    ∀ n, Roomy n (apart.state false, apart.state true) →
      ∃ after, exchanges firstVersion n (apart.state false, apart.state true) = .ok after ∧
        ¬ Converged after :=
  ⟨apart_run, fun _ room =>
    exchanges_concurrent ((valid_of_run apart_run).facing (by decide)) apart_concurrent room⟩

end TwoReplicas

end Firestr.Util
