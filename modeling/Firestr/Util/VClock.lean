import Mathlib.Data.Finmap
import Firestr.Util.Dbc

/-! Vector clocks. `vclock` counts what it has seen of each id, and
`tracked_vclock` knows the id it counts itself under. -/

set_option autoImplicit false

namespace Firestr.Util

/-- `vclock`, a map from ids to 64-bit counts. -/
abbrev VClock (Id : Type) := Finmap fun _ : Id => UInt64

variable {Id : Type} [DecidableEq Id]

namespace VClock

/-- What `_c[i]` reads. It enters a zero when there is no count. -/
def count (c : VClock Id) (i : Id) : UInt64 := (c.lookup i).getD 0

theorem count_insert (c : VClock Id) (i other : Id) (v : UInt64) :
    count (c.insert i v) other = if other = i then v else count c other := by
  rw [count]
  split
  · rename_i same
    rw [same, Finmap.lookup_insert]
    rfl
  · rename_i different
    rw [Finmap.lookup_insert_of_ne _ different]
    rfl

theorem toNat_max (v w : UInt64) : (max v w).toNat = max v.toNat w.toNat := by
  change (if v ≤ w then w else v).toNat = _
  split <;> rename_i order <;> rw [UInt64.le_iff_toNat_le] at order <;> omega

/-- One step of the loop of `operator +=`. -/
def raise (c : VClock Id) (i : Id) (v : UInt64) : VClock Id := c.insert i (max (count c i) v)

theorem raise_comm (c : VClock Id) (i : Id) (v : UInt64) (other : Id) (w : UInt64) :
    raise (raise c i v) other w = raise (raise c other w) i v := by
  by_cases same : i = other
  · subst same
    have maxima : max (max (count c i) v) w = max (max (count c i) w) v := by
      rw [← UInt64.toNat_inj]
      simp only [toNat_max]
      omega
    simp only [raise, count_insert, if_true, Finmap.insert_insert, maxima]
  · simp only [raise, count_insert, if_neg same, if_neg (Ne.symm same),
      Finmap.insert_insert_of_ne _ same]

/-- `operator +=`. -/
def add (c o : VClock Id) : VClock Id := o.foldl raise raise_comm c

/-- `compare`: -1 if `o` is greater, 1 if it is less, and 0 otherwise. -/
def compare (c o : VClock Id) : Int :=
  let keys := c.keys ∪ o.keys
  let diff := fun k => (count c k).toInt64 - (count o k).toInt64
  let g := decide (∃ k ∈ keys, diff k > 0)
  let l := decide (∃ k ∈ keys, diff k < 0)
  if l && g then 0
  else if l then -1
  else if g then 1
  else 0

def identical (c o : VClock Id) : Bool := decide (c = o)

/-- `operator <=`. -/
def le (c o : VClock Id) : Bool := c.compare o == -1 || c.identical o

def empty (c : VClock Id) : Bool := decide (c = ∅)

def has (c : VClock Id) (i : Id) : Bool := decide (i ∈ c)

end VClock

structure TrackedVClock (Id : Type) where
  c : VClock Id
  i : Id

namespace TrackedVClock

def new (i : Id) : TrackedVClock Id := { c := Finmap.singleton i 1, i := i }

/-- The constructor from a clock, which gives it a count of its own id. -/
def ofClock (i : Id) (c : VClock Id) : TrackedVClock Id :=
  { c := if c.has i then c else c.insert i 1, i := i }

/-- `operator ++`. -/
def increment (t : TrackedVClock Id) : TrackedVClock Id :=
  { t with c := t.c.insert t.i (t.c.count t.i + 1) }

/-- `operator +=`. -/
def add (t o : TrackedVClock Id) : Outcome (TrackedVClock Id) := do
  require (!o.c.empty) "!(o._c.empty())"
  let t := { t with c := t.c.add o.c }
  contract .invariant (t.c.has t.i) "_c.has(_i)"
  pure t

def compare (t o : TrackedVClock Id) : Outcome Int := do
  require (!o.c.empty) "!(o._c.empty())"
  contract .invariant (t.c.has t.i) "_c.has(_i)"
  pure (t.c.compare o.c)

def identical (t o : TrackedVClock Id) : Outcome Bool := do
  require (!o.c.empty) "!(o._c.empty())"
  contract .invariant (t.c.has t.i) "_c.has(_i)"
  pure (t.c.identical o.c)

/-- `operator <=`. -/
def le (t o : TrackedVClock Id) : Outcome Bool := do
  require (!o.c.empty) "!(o._c.empty())"
  contract .invariant (t.c.has t.i) "_c.has(_i)"
  pure (t.c.le o.c)

end TrackedVClock

end Firestr.Util
