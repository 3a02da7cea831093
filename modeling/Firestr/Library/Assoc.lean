import Mathlib.Logic.Function.Basic
import Mathlib.Tactic.Common

/-! Maps as lists of entries in the order they are walked. -/

set_option autoImplicit false

namespace Firestr.Library.Assoc

variable {Key Item : Type} [DecidableEq Key]

/-- The map with `v` under `k`: in place of the old item, or after all others. -/
def assign (d : List (Key × Item)) (k : Key) (v : Item) : List (Key × Item) :=
  if k ∈ d.map (·.1) then d.map fun e => if e.1 = k then (k, v) else e else d ++ [(k, v)]

/-- The map without `k`. -/
def unassign (d : List (Key × Item)) (k : Key) : List (Key × Item) := d.filter fun e => e.1 ≠ k

/-- A partial function after the entries of a map are written into it. -/
def overwrite (f : Key → Option Item) : List (Key × Item) → Key → Option Item
  | [] => f
  | e :: d => overwrite (Function.update f e.1 (some e.2)) d

section Overwrite

variable {f : Key → Option Item} {d : List (Key × Item)} {k : Key}

theorem overwrite_of_not_mem (fresh : k ∉ d.map (·.1)) : overwrite f d k = f k := by
  induction d generalizing f with
  | nil => rfl
  | cons e d ih =>
      rw [List.map_cons, List.mem_cons, not_or] at fresh
      rw [overwrite, ih fresh.2, Function.update_of_ne fresh.1]

theorem overwrite_of_mem (distinct : (d.map (·.1)).Nodup) {e : Key × Item} (member : e ∈ d) :
    overwrite f d e.1 = some e.2 := by
  induction d generalizing f with
  | nil => cases member
  | cons first d ih =>
      obtain ⟨fresh, distinct⟩ := List.nodup_cons.mp distinct
      rcases List.mem_cons.mp member with rfl | later
      · rw [overwrite, overwrite_of_not_mem fresh, Function.update_self]
      · exact ih distinct later

/-- A map that is written changes nothing exactly when it is there already. -/
theorem overwrite_eq_self_iff (distinct : (d.map (·.1)).Nodup) :
    overwrite f d = f ↔ ∀ e ∈ d, f e.1 = some e.2 := by
  constructor
  · intro same e member
    rw [← same]
    exact overwrite_of_mem distinct member
  · intro there
    funext k
    by_cases member : k ∈ d.map (·.1)
    · obtain ⟨e, inside, rfl⟩ := List.mem_map.mp member
      rw [overwrite_of_mem distinct inside, there e inside]
    · exact overwrite_of_not_mem member

end Overwrite

section Assign

variable {d : List (Key × Item)} {k : Key} {v : Item} {e : Key × Item}

theorem assign_of_not_mem (fresh : k ∉ d.map (·.1)) : assign d k v = d ++ [(k, v)] := by
  rw [assign, if_neg fresh]

theorem eq_or_mem_of_mem_assign (member : e ∈ assign d k v) :
    e = (k, v) ∨ (e ∈ d ∧ e.1 ≠ k) := by
  rw [assign] at member
  split at member
  · obtain ⟨old, inside, rfl⟩ := List.mem_map.mp member
    split
    · exact .inl rfl
    · rename_i different
      exact .inr ⟨inside, different⟩
  · rename_i fresh
    rcases List.mem_append.mp member with before | last
    · exact .inr ⟨before, fun same => fresh (same ▸ List.mem_map_of_mem before)⟩
    · exact .inl (List.mem_singleton.mp last)

theorem keys_assign_of_mem (there : k ∈ d.map (·.1)) : (assign d k v).map (·.1) = d.map (·.1) := by
  rw [assign, if_pos there, List.map_map]
  refine List.map_congr_left fun e _ => ?_
  by_cases same : e.1 = k
  · simp [same]
  · simp [same]

theorem nodup_keys_assign (distinct : (d.map (·.1)).Nodup) :
    ((assign d k v).map (·.1)).Nodup := by
  by_cases there : k ∈ d.map (·.1)
  · rw [keys_assign_of_mem there]
    exact distinct
  · rw [assign_of_not_mem there, List.map_append, List.map_singleton]
    refine List.nodup_append.mpr ⟨distinct, by simp, ?_⟩
    rintro key before other last rfl
    rw [List.mem_singleton.mp last] at before
    exact there before

theorem foldl_assign {Source : Type} (item : Source → Item) (t : List (Key × Source))
    (distinct : (d.map (·.1) ++ t.map (·.1)).Nodup) :
    t.foldl (fun d e => assign d e.1 (item e.2)) d = d ++ t.map fun e => (e.1, item e.2) := by
  induction t generalizing d with
  | nil => exact (List.append_nil d).symm
  | cons e t ih =>
      have fresh : e.1 ∉ d.map (·.1) := fun member =>
        (List.nodup_append.mp distinct).2.2 e.1 member e.1 List.mem_cons_self rfl
      rw [List.foldl_cons, assign_of_not_mem fresh, ih (by simpa using distinct), List.map_cons,
        List.append_assoc, List.singleton_append]

/-- Two maps whose items are related key by key stay so. -/
theorem forall₂_assign {Other : Type} {related : Item → Other → Prop} {d' : List (Key × Other)}
    {v' : Other} (pairs : List.Forall₂ (fun e f => e.1 = f.1 ∧ related e.2 f.2) d d')
    (item : related v v') :
    List.Forall₂ (fun e f => e.1 = f.1 ∧ related e.2 f.2) (assign d k v) (assign d' k v') := by
  have keys : d.map (·.1) = d'.map (·.1) := by
    induction pairs with
    | nil => rfl
    | cons pair _ ih => rw [List.map_cons, List.map_cons, pair.1, ih]
  unfold assign
  rw [← keys]
  split
  · rename_i there
    clear there keys
    induction pairs with
    | nil => exact .nil
    | @cons e f _ _ pair _ ih =>
        refine .cons ?_ ih
        by_cases same : e.1 = k
        · simp only [if_pos same, if_pos (pair.1.symm.trans same)]
          exact ⟨trivial, item⟩
        · simp only [if_neg same, if_neg fun here => same (pair.1.trans here)]
          exact pair
  · rename_i fresh
    clear fresh keys
    induction pairs with
    | nil => exact .cons ⟨rfl, item⟩ .nil
    | cons pair _ ih => exact .cons pair ih

theorem mem_keys_assign {key : Key} :
    key ∈ (assign d k v).map (·.1) ↔ key = k ∨ key ∈ d.map (·.1) := by
  by_cases there : k ∈ d.map (·.1)
  · rw [keys_assign_of_mem there]
    exact ⟨.inr, fun either => either.elim (fun same => same ▸ there) id⟩
  · rw [assign_of_not_mem there, List.map_append, List.mem_append, List.map_singleton,
      List.mem_singleton, or_comm]

theorem nodup_keys_unassign (distinct : (d.map (·.1)).Nodup) :
    ((unassign d k).map (·.1)).Nodup :=
  distinct.sublist (List.filter_sublist.map _)

theorem mem_of_mem_unassign (member : e ∈ unassign d k) : e ∈ d := (List.mem_filter.mp member).1

end Assign

section Lookup

variable [BEq Key] [LawfulBEq Key] {d : List (Key × Item)} {k : Key} {v : Item}

theorem lookup_assign_self : (assign d k v).lookup k = some v := by
  rw [assign]
  split
  · rename_i there
    induction d with
    | nil => cases there
    | cons e d ih =>
        rw [List.map_cons]
        by_cases same : e.1 = k
        · simp [same]
        · have later : k ∈ d.map (·.1) := by
            rcases List.mem_cons.mp there with here | later
            · exact absurd here.symm same
            · exact later
          rw [if_neg same, List.lookup_cons, beq_eq_false_iff_ne.mpr (Ne.symm same)]
          exact ih later
  · rename_i fresh
    have none? : d.lookup k = none := by
      rw [List.lookup_eq_none_iff]
      intro e member
      have other : k ≠ e.1 := fun same => fresh (same ▸ List.mem_map_of_mem member)
      simp [other]
    simp [List.lookup_append, none?]

theorem lookup_assign_of_ne {other : Key} (different : other ≠ k) :
    (assign d k v).lookup other = d.lookup other := by
  have unmatched : (other == k) = false := beq_eq_false_iff_ne.mpr different
  rw [assign]
  split
  · induction d with
    | nil => rfl
    | cons e d ih =>
        have rest : (d.map fun e => if e.1 = k then (k, v) else e).lookup other =
            d.lookup other := by
          by_cases later : k ∈ d.map (·.1)
          · exact ih later
          · refine congrArg _ ((List.map_congr_left fun e member => ?_).trans (List.map_id d))
            exact if_neg fun here => later (List.mem_map.mpr ⟨e, member, here⟩)
        rw [List.map_cons, List.lookup_cons, List.lookup_cons, rest]
        by_cases same : e.1 = k
        · rw [if_pos same, same, unmatched]
        · rw [if_neg same]
  · simp [List.lookup_append, List.lookup_cons, unmatched]

theorem lookup_assign (other : Key) :
    (assign d k v).lookup other = if other = k then some v else d.lookup other := by
  split
  · rename_i same
    rw [same, lookup_assign_self]
  · rename_i different
    exact lookup_assign_of_ne different

theorem lookup_unassign (other : Key) :
    (unassign d k).lookup other = if other = k then none else d.lookup other := by
  rw [unassign]
  induction d with
  | nil => simp
  | cons e d ih =>
      rw [List.filter_cons, List.lookup_cons]
      split
      · rename_i other?
        rw [List.lookup_cons, ih]
        by_cases here : other = e.1
        · have different : other ≠ k := here ▸ of_decide_eq_true other?
          simp only [beq_iff_eq.mpr here, if_neg different]
        · rw [beq_eq_false_iff_ne.mpr here]
      · rename_i same
        have key : e.1 = k := by simpa using same
        rw [ih, key]
        by_cases here : other = k
        · rw [if_pos here, if_pos here]
        · rw [if_neg here, if_neg here, beq_eq_false_iff_ne.mpr here]

omit [DecidableEq Key] in
theorem lookup_of_mem (distinct : (d.map (·.1)).Nodup) (member : (k, v) ∈ d) :
    d.lookup k = some v := by
  induction d with
  | nil => cases member
  | cons e d ih =>
      obtain ⟨fresh, distinct⟩ := List.nodup_cons.mp distinct
      rw [List.lookup_cons]
      rcases List.mem_cons.mp member with rfl | later
      · rw [BEq.rfl]
      · have different : k ≠ e.1 := fun same => fresh (List.mem_map.mpr ⟨_, later, same⟩)
        rw [beq_eq_false_iff_ne.mpr different]
        exact ih distinct later

omit [DecidableEq Key] [BEq Key] [LawfulBEq Key] in
theorem forall_mem_cons_iff {property : Key → Item → Prop} :
    (∀ k' v', (k', v') ∈ (k, v) :: d → property k' v') ↔
      property k v ∧ ∀ k' v', (k', v') ∈ d → property k' v' := by
  constructor
  · intro all
    exact ⟨all k v List.mem_cons_self, fun k' v' member => all k' v' (.tail _ member)⟩
  · rintro ⟨here, later⟩ k' v' member
    cases member with
    | head => exact here
    | tail _ member => exact later k' v' member

omit [DecidableEq Key] in
theorem mem_of_lookup (found : d.lookup k = some v) : (k, v) ∈ d := by
  obtain ⟨before, after, rfl, -⟩ := List.lookup_eq_some_iff.mp found
  simp

omit [DecidableEq Key] in
/-- The order of the entries does not matter to what is found. -/
theorem lookup_perm {d' : List (Key × Item)} (perm : d'.Perm d) (distinct : (d.map (·.1)).Nodup)
    (k : Key) : d'.lookup k = d.lookup k := by
  cases found : d.lookup k with
  | some v =>
      have distinct' : (d'.map (·.1)).Nodup := (perm.map (·.1)).nodup_iff.mpr distinct
      exact lookup_of_mem distinct' (perm.mem_iff.mpr (mem_of_lookup found))
  | none =>
      rw [List.lookup_eq_none_iff] at found ⊢
      intro e member
      exact found e (perm.mem_iff.mp member)

end Lookup

end Firestr.Library.Assoc
