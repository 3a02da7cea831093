import Mathlib.Order.Lattice
import Mathlib.Tactic.Common

/-! Maps as lists of entries in the order of their keys. -/

set_option autoImplicit false

namespace Firestr.Library.OrderedMap

variable {Key Item : Type} [LinearOrder Key]

/-- The map with `v` under `k`: in place of the old item, or where its key belongs. -/
def place : List (Key × Item) → Key → Item → List (Key × Item)
  | [], k, v => [(k, v)]
  | e :: d, k, v =>
    if k < e.1 then (k, v) :: e :: d
    else if k = e.1 then (k, v) :: d
    else e :: place d k v

theorem mem_keys_place {d : List (Key × Item)} {k key : Key} {v : Item} :
    key ∈ (place d k v).map (·.1) ↔ key = k ∨ key ∈ d.map (·.1) := by
  induction d with
  | nil => simp [place]
  | cons e d ih =>
      rw [place]
      split
      · simp
      · split
        · rename_i same
          simp [same]
        · simp only [List.map_cons, List.mem_cons, ih, or_left_comm]

theorem eq_or_mem_of_mem_place {d : List (Key × Item)} {k : Key} {v : Item} {e : Key × Item}
    (member : e ∈ place d k v) : e = (k, v) ∨ e ∈ d := by
  induction d with
  | nil => exact .inl (List.mem_singleton.mp member)
  | cons first d ih =>
      rw [place] at member
      split at member
      · exact List.mem_cons.mp member
      · split at member
        · exact (List.mem_cons.mp member).imp id (.tail _)
        · rcases List.mem_cons.mp member with rfl | later
          · exact .inr List.mem_cons_self
          · exact (ih later).imp id (.tail _)

theorem lookup_place (d : List (Key × Item)) (k : Key) (v : Item) (other : Key) :
    (place d k v).lookup other = if other = k then some v else d.lookup other := by
  induction d with
  | nil => rw [place, List.lookup_cons]; split <;> simp_all
  | cons e d ih =>
      rw [place]
      split
      · rw [List.lookup_cons]; split <;> simp_all
      · split
        · rename_i same
          rw [List.lookup_cons, List.lookup_cons, ← same]
          split <;> simp_all
        · rename_i different
          rw [List.lookup_cons, List.lookup_cons, ih]
          split
          · rename_i here
            rw [if_neg fun same => different (same.symm.trans (beq_iff_eq.mp here))]
          · rfl

end Firestr.Library.OrderedMap
