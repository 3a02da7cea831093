import Firestr.Messages.PostOffice

/-! The offices of a tree, and what an office finds under an address when no two
offices of the tree have the same one. -/

set_option autoImplicit false

namespace Firestr.Messages

open Firestr.Util

namespace Office

mutual

/-- The addresses of an office and of all offices below it. -/
def addresses : Office → List Bytes
  | .mk address _ offices => address :: addressesOf offices

def addressesOf : List Office → List Bytes
  | [] => []
  | o :: offices => o.addresses ++ addressesOf offices

end

/-- No two offices of the tree have the same address. -/
def Distinct (o : Office) : Prop := o.addresses.Nodup

/-- The office is in the tree, and these are the offices above it, up to the root. -/
inductive At (root : Office) : Office → List Office → Prop where
  | root : At root root []
  | child {o sp : Office} {above : List Office} :
      At root o above → sp ∈ o.offices → At root sp (o :: above)

theorem At.trans {root o sp : Office} {above below : List Office} (upper : At root o above)
    (lower : At o sp below) : At root sp (below ++ above) := by
  induction lower with
  | root => exact upper
  | child _ member ih => exact .child ih member

theorem At.down {o sp od : Office} {below : List Office} (member : sp ∈ o.offices)
    (lower : At sp od below) : At o od (below ++ [o]) :=
  At.trans (.child .root member) lower

theorem At.upper {root o : Office} {above : List Office} (place : At root o above) :
    ∀ parent higher, above = parent :: higher → At root parent higher ∧ o ∈ parent.offices := by
  intro parent higher same
  cases place with
  | root => cases same
  | child upper member =>
      cases same
      exact ⟨upper, member⟩

theorem address_mem_addresses (o : Office) : o.address ∈ o.addresses := by
  cases o
  exact List.mem_cons_self

theorem addresses_eq (o : Office) : o.addresses = o.address :: addressesOf o.offices := by
  cases o
  rfl

theorem sublist_addressesOf {o : Office} {offices : List Office} (member : o ∈ offices) :
    o.addresses.Sublist (addressesOf offices) := by
  induction offices with
  | nil => cases member
  | cons first others ih =>
      rw [addressesOf]
      cases member with
      | head => exact List.sublist_append_left _ _
      | tail _ later => exact (ih later).trans (List.sublist_append_right _ _)

theorem find_address {offices : List Office} (distinct : (addressesOf offices).Nodup)
    {o : Office} (member : o ∈ offices) :
    offices.find? (·.address == o.address) = some o := by
  induction offices with
  | nil => cases member
  | cons first others ih =>
      rw [addressesOf, List.nodup_append] at distinct
      obtain ⟨-, later, apart⟩ := distinct
      cases member with
      | head => exact List.find?_cons_of_pos (beq_self_eq_true _)
      | tail _ member =>
          have other : first.address ≠ o.address := by
            intro same
            have inside := (sublist_addressesOf member).subset (address_mem_addresses o)
            exact apart _ (address_mem_addresses first) _ inside same
          rw [List.find?_cons_of_neg (by simpa using other)]
          exact ih later member

variable {root o sp : Office} {above : List Office}

theorem Distinct.offices (distinct : o.Distinct) :
    o.address ∉ addressesOf o.offices ∧ (addressesOf o.offices).Nodup := by
  rw [Distinct, addresses_eq] at distinct
  exact List.nodup_cons.mp distinct

theorem Distinct.lower (distinct : o.Distinct) (member : sp ∈ o.offices) : sp.Distinct :=
  distinct.offices.2.sublist (sublist_addressesOf member)

theorem Distinct.reached (distinct : root.Distinct) (place : At root o above) : o.Distinct := by
  induction place with
  | root => exact distinct
  | child _ member ih => exact ih.lower member

/-- An office finds each of its offices. -/
theorem Distinct.child_eq (distinct : o.Distinct) (member : sp ∈ o.offices) :
    o.child sp.address = some sp :=
  find_address distinct.offices.2 member

theorem Distinct.address_ne (distinct : o.Distinct) (member : sp ∈ o.offices) :
    sp.address ≠ o.address := by
  intro same
  have inside := (sublist_addressesOf member).subset (address_mem_addresses sp)
  exact distinct.offices.1 (same ▸ inside)

/-- An office does not find its parent among its offices. -/
theorem Distinct.child_parent (distinct : o.Distinct) (member : sp ∈ o.offices) :
    sp.child o.address = none := by
  refine List.find?_eq_none.mpr fun c below same => ?_
  have inside := (sublist_addressesOf below).subset (address_mem_addresses c)
  have within : c.address ∈ sp.addresses := by
    rw [addresses_eq]
    exact List.mem_cons_of_mem _ inside
  have equal : c.address = o.address := eq_of_beq same
  exact distinct.offices.1 (equal ▸ (sublist_addressesOf member).subset within)

theorem mem_offices_of_child {key : Bytes} (found : o.child key = some sp) :
    sp ∈ o.offices ∧ sp.address = key := by
  have same : (sp.address == key) = true :=
    @List.find?_some _ (fun o : Office => o.address == key) _ _ found
  exact ⟨List.mem_of_find?_eq_some found, eq_of_beq same⟩

end Office

end Firestr.Messages
