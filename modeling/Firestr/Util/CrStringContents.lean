import Firestr.Util.CrStringReplicas

/-! A clock identifies the string under it. Every change gives a replica a
count that no other clock has, and a replica that takes a newer string takes
its clock with it. -/

set_option autoImplicit false

namespace Firestr.Util

open Firestr.Library.VersionVector Firestr.Library.Runs

variable {Id : Type} [DecidableEq Id]

/-- The state of a replica, or a snapshot of one. -/
def Replicas.Holds (r : Replicas Id) (o : CrString Id) : Prop :=
  o ∈ r.sent ∨ ∃ i, o = r.state i

/-- All but the state of `i`. -/
def Replicas.Others (r : Replicas Id) (i : Id) (o : CrString Id) : Prop :=
  o ∈ r.sent ∨ ∃ j, j ≠ i ∧ o = r.state j

/-- `init_set` is used on a replica only before its first snapshot. -/
def EarlyInit (events : List (ReplicaEvent Id)) : Prop :=
  ∀ before i s after, events = before ++ .initSet i s :: after → .send i ∉ before

/-- Identical clocks have the same string, and nobody else counts a replica
that has sent no snapshot. -/
structure Replicas.Identified (events : List (ReplicaEvent Id)) (r : Replicas Id) : Prop where
  valid : r.Valid
  content : ∀ o o', r.Holds o → r.Holds o' → o.c.c = o'.c.c → o.s = o'.s
  unsent : ∀ i, .send i ∉ events → ∀ o, r.Others i o → o.c.c.counts i = 0

section Holds

variable {r : Replicas Id} {i : Id} {me o : CrString Id}

omit [DecidableEq Id] in
theorem Replicas.Others.holds (others : r.Others i o) : r.Holds o :=
  others.imp_right fun ⟨j, _, same⟩ => ⟨j, same⟩

theorem Replicas.holds_put (held : (r.put i me).Holds o) : o = me ∨ r.Others i o := by
  rcases held with sent | ⟨j, rfl⟩
  · exact .inr (.inl sent)
  · change Function.update r.state i me j = me ∨ r.Others i (Function.update r.state i me j)
    rw [Function.update_apply]
    split
    · exact .inl rfl
    · rename_i different
      exact .inr (.inr ⟨j, different, rfl⟩)

theorem Replicas.others_put {k : Id} (others : (r.put i me).Others k o) :
    (i ≠ k ∧ o = me) ∨ r.Others k o := by
  rcases others with sent | ⟨j, different, rfl⟩
  · exact .inr (.inl sent)
  · change (i ≠ k ∧ Function.update r.state i me j = me) ∨
      r.Others k (Function.update r.state i me j)
    rw [Function.update_apply]
    split
    · rename_i here
      exact .inl ⟨here ▸ different, rfl⟩
    · exact .inr (.inr ⟨j, different, rfl⟩)

theorem Replicas.Valid.holds (valid : r.Valid) (held : r.Holds o) : r.Known o := by
  rcases held with sent | ⟨j, rfl⟩
  · exact valid.sent o sent
  · exact valid.states j

end Holds

section Identified

variable {dtl : Dtl} {events : List (ReplicaEvent Id)} {r next : Replicas Id}

theorem Replicas.Identified.start : Replicas.Identified []
    ({ state := CrString.new } : Replicas Id) where
  valid := .start
  content o o' held other _ := by
    rcases held with sent | ⟨i, rfl⟩
    · cases sent
    · rcases other with sent | ⟨j, rfl⟩
      · cases sent
      · rfl
  unsent i _ o others := by
    rcases others with sent | ⟨j, different, rfl⟩
    · cases sent
    · exact (TrackedVClock.counts_new j i).trans (if_neg different.symm)

private theorem Replicas.Identified.put (identified : r.Identified events)
    {event : ReplicaEvent Id} {i : Id} {me : CrString Id} (valid : (r.put i me).Valid)
    (content : ∀ o, r.Others i o → me.c.c = o.c.c → me.s = o.s)
    (unseen : ∀ k, k ≠ i → .send k ∉ events → me.c.c.counts k = 0) :
    Replicas.Identified (events ++ [event]) (r.put i me) where
  valid := valid
  content o o' held other same := by
    rcases Replicas.holds_put held with rfl | first
    · rcases Replicas.holds_put other with rfl | second
      · rfl
      · exact content o' second same
    · rcases Replicas.holds_put other with rfl | second
      · exact (content o first same.symm).symm
      · exact identified.content o o' first.holds second.holds same
  unsent k quiet o others := by
    have before : .send k ∉ events := fun sent => quiet (List.mem_append_left _ sent)
    rcases Replicas.others_put others with ⟨different, rfl⟩ | earlier
    · exact unseen k different.symm before
    · exact identified.unsent k before o earlier

private theorem Replicas.Identified.fresh (identified : r.Identified events) {i : Id}
    {me o : CrString Id} (changed : (r.state i).c.c.counts i < me.c.c.counts i)
    (others : r.Others i o) : me.c.c ≠ o.c.c := by
  intro same
  have bounded := (identified.valid.holds others.holds).bounded i
  rw [← same] at bounded
  omega

private theorem Replicas.Identified.unseen (identified : r.Identified events) {i k : Id}
    (different : k ≠ i) (quiet : .send k ∉ events) : (r.state i).c.c.counts k = 0 :=
  identified.unsent k quiet _ (.inr ⟨i, different.symm, rfl⟩)

private theorem Replicas.Identified.initSet (identified : r.Identified events) {i : Id} {s : Bytes}
    (early : .send i ∉ events) (valid : (r.put i ((r.state i).initSet s)).Valid) :
    Replicas.Identified (events ++ [.initSet i s]) (r.put i ((r.state i).initSet s)) := by
  refine identified.put valid (fun o others same => ?_) fun k different quiet =>
    identified.unseen different quiet
  have formed := (identified.valid.states i).formed
  have own := formed.counted.positive _ formed.own
  rw [identified.valid.named i] at own
  have none? := identified.unsent i early o others
  rw [← same] at none?
  exact absurd none? (Nat.ne_of_gt own)

private theorem counts_tick {me : CrString Id} {i : Id} (named : me.c.i = i) (room : me.Room 1) :
    me.c.increment.c.counts = tick me.c.c.counts i := by
  rw [TrackedVClock.counts_increment room, named]

private theorem Replicas.Identified.set (identified : r.Identified events) {i : Id} {s : Bytes}
    (room : (r.state i).Room 1) (valid : (r.put i ((r.state i).set s)).Valid) :
    Replicas.Identified (events ++ [.set i s]) (r.put i ((r.state i).set s)) := by
  have counts : ((r.state i).set s).c.c.counts = tick (r.state i).c.c.counts i :=
    counts_tick (identified.valid.named i) room
  refine identified.put valid (fun o others same => ?_) fun k different quiet => ?_
  · refine absurd same (identified.fresh ?_ others)
    rw [counts, tick_apply, if_pos rfl]
    exact Nat.lt_succ_self _
  · rw [counts, tick_apply, if_neg different]
    exact identified.unseen different quiet

private theorem Replicas.Identified.send (identified : r.Identified events) (i : Id)
    (valid : Replicas.Valid { r with sent := r.state i :: r.sent }) :
    Replicas.Identified (events ++ [.send i]) { r with sent := r.state i :: r.sent } := by
  have held : ∀ {o : CrString Id}, Replicas.Holds { r with sent := r.state i :: r.sent } o →
      r.Holds o := by
    rintro o (sent | state)
    · rcases List.mem_cons.mp sent with rfl | earlier
      · exact .inr ⟨i, rfl⟩
      · exact .inl earlier
    · exact .inr state
  refine ⟨valid, fun o o' first second => identified.content o o' (held first) (held second),
    fun k quiet o others => ?_⟩
  have before : .send k ∉ events := fun sent => quiet (List.mem_append_left _ sent)
  rcases others with sent | ⟨j, different, rfl⟩
  · rcases List.mem_cons.mp sent with rfl | earlier
    · refine identified.unseen (fun same => quiet ?_) before
      rw [same]
      exact List.mem_append_right _ List.mem_cons_self
    · exact identified.unsent k before o (.inl earlier)
  · exact identified.unseen different.symm before

private theorem Replicas.Identified.copy (identified : r.Identified events)
    {event : ReplicaEvent Id} {i : Id} {me o : CrString Id} (held : r.Holds o)
    (clock : me.c.c = o.c.c) (string : me.s = o.s) (valid : (r.put i me).Valid)
    (unseen : ∀ k, k ≠ i → .send k ∉ events → me.c.c.counts k = 0) :
    Replicas.Identified (events ++ [event]) (r.put i me) :=
  identified.put valid (fun other others same =>
    string.trans (identified.content o other held others.holds (clock.symm.trans same))) unseen

private theorem Replicas.Identified.merge (identified : r.Identified events) {i : Id}
    {o me : CrString Id} {result : MergeResult} (member : o ∈ r.sent) (room : (r.state i).Room 1)
    (merged : (r.state i).merge dtl o = .ok (result, me)) (valid : (r.put i me).Valid) :
    Replicas.Identified (events ++ [.merge i o]) (r.put i me) := by
  have mine := (identified.valid.states i).formed
  have known := (identified.valid.sent o member).formed
  have unseen : ∀ k, k ≠ i → .send k ∉ events →
      ((r.state i).c.joined o.c).c.counts k = 0 := by
    intro k different quiet
    have sender : o.c.c.counts k = 0 := identified.unsent k quiet o (.inl member)
    rw [TrackedVClock.joined, VClock.counts_add, Pi.sup_apply, sender,
      identified.unseen different quiet]
    rfl
  cases merges_of_merge dtl mine known merged with
  | newer below =>
      have clock := VClock.add_eq_right mine.counted known.counted below.le
      exact identified.copy (.inl member) clock rfl valid unseen
  | stale =>
      exact identified.copy (.inr ⟨i, rfl⟩) rfl rfl valid fun k different quiet =>
        identified.unseen different quiet
  | concurrent =>
      have counts : ((r.state i).c.increment.joined o.c).c.counts =
          tick (r.state i).c.c.counts i ⊔ o.c.c.counts := by
        rw [TrackedVClock.joined, VClock.counts_add, counts_tick (identified.valid.named i) room]
      refine identified.put valid (fun other others same => ?_) fun k different quiet => ?_
      · refine absurd same (identified.fresh ?_ others)
        rw [counts, Pi.sup_apply, tick_apply, if_pos rfl]
        exact lt_of_lt_of_le (Nat.lt_succ_self _) (le_max_left ..)
      · rw [counts, Pi.sup_apply, tick_apply, if_neg different]
        have zero := unseen k different quiet
        rw [TrackedVClock.joined, VClock.counts_add, Pi.sup_apply] at zero
        exact zero

theorem Replicas.Identified.step (identified : r.Identified events) {event : ReplicaEvent Id}
    (early : ∀ i s, event = .initSet i s → .send i ∉ events)
    (step : ReplicaStep dtl r event next) : Replicas.Identified (events ++ [event]) next := by
  have valid := identified.valid.step step
  cases step with
  | @initSet i s => exact identified.initSet (early i s rfl) valid
  | set room => exact identified.set room valid
  | @send i => exact identified.send i valid
  | merge member room merged => exact identified.merge member room merged valid

/-- After every run, any two states or snapshots with identical clocks hold the
same string, and no clock counts more of a replica than the replica itself. -/
theorem clock_identifies_string (run : ReplicaRun dtl events r) (early : EarlyInit events) :
    (∀ o o', r.Holds o → r.Holds o' → o.c.c.identical o'.c.c = true → o.s = o'.s) ∧
      ∀ o, r.Holds o → ∀ i, o.c.c.counts i ≤ (r.state i).c.c.counts i := by
  have identified : EarlyInit events → r.Identified events := by
    refine run.invariant (fun events r => EarlyInit events → r.Identified events) ?_ ?_
    · rintro _ rfl _
      exact .start
    · intro events r event next _ earlier step early
      have before : EarlyInit events := fun prior i s after split =>
        early prior i s (after ++ [event]) (by rw [split]; simp)
      refine (earlier before).step (fun i s here => ?_) step
      exact early events i s [] (by rw [here])
  refine ⟨fun o o' first second same => ?_, fun o held i =>
    ((identified early).valid.holds held).bounded i⟩
  exact (identified early).content o o' first second (of_decide_eq_true same)

end Identified

/-- Two replicas that are set before the first of them sends a snapshot. -/
theorem clock_identifies_string_apart : (apart.state false).s = (apart.state false).s ∧
    (apart.state true).c.c.counts false ≤ (apart.state false).c.c.counts false := by
  have early : EarlyInit [.initSet false (ascii "left"), .initSet true (ascii "right"),
      .send false] := by
    intro before i s after split
    rcases before with _ | ⟨first, _ | ⟨second, _ | ⟨third, rest⟩⟩⟩
    · exact List.not_mem_nil
    · simp only [List.cons_append, List.cons.injEq] at split
      rw [← split.1]
      simp
    · simp at split
    · simp at split
  have run := apart_run.step (.send (i := false))
  obtain ⟨identifies, bounded⟩ := clock_identifies_string run early
  exact ⟨identifies _ _ (.inl List.mem_cons_self) (.inr ⟨false, rfl⟩) (by decide +kernel),
    bounded _ (.inr ⟨true, rfl⟩) false⟩

end Firestr.Util
