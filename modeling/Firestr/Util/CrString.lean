import Firestr.Library.Runs
import Firestr.Util.Bytes
import Firestr.Util.VClockProperties

/-! Concurrent strings. A `cr_string` is a string with a tracked clock, and
replicas of one string send each other theirs and merge what they are sent. -/

set_option autoImplicit false

namespace Firestr.Util

open Firestr.Library.Runs

/-- What `util::merge` uses of `dtl`: the three way merge of `a` and `c` with
the base `b`. Two versions with one change are merged to it. -/
structure Dtl where
  merge : Bytes → Bytes → Bytes → Option Bytes
  merge_same : ∀ a b, merge a b a = some a

inductive MergeResult where
  | noChange
  | updated
  | merged
  | conflict
  deriving DecidableEq, Repr

structure CrString (Id : Type) where
  c : TrackedVClock Id
  s : Bytes := []

variable {Id : Type} [DecidableEq Id]

namespace CrString

def new (id : Id) : CrString Id := { c := .new id }

def initSet (me : CrString Id) (s : Bytes) : CrString Id := { me with s := s }

def set (me : CrString Id) (s : Bytes) : CrString Id := { c := me.c.increment, s := s }

def merge (dtl : Dtl) (me o : CrString Id) : Outcome (MergeResult × CrString Id) := do
  let order ← o.c.compare me.c
  let (r, me) ← (if order = -1 then pure (.noChange, me)
    else if order = 1 then pure (.updated, { me with s := o.s })
    else if order = 0 then do
      if ← me.c.identical o.c then pure (.noChange, me)
      else
        match dtl.merge o.s me.s o.s with
        | none => pure (.conflict, me)
        | some merged => pure (.merged, { c := me.c.increment, s := merged })
    else do
      check false "false && \"missed case\""
      pure (.noChange, me) : Outcome (MergeResult × CrString Id))
  let c ← me.c.add o.c
  pure (r, { me with c := c })

end CrString

/-- The replicas of a string, each under its id, and what they have sent. -/
structure Replicas (Id : Type) where
  state : Id → CrString Id
  sent : List (CrString Id) := []

inductive ReplicaEvent (Id : Type) where
  | initSet (i : Id) (s : Bytes)
  | set (i : Id) (s : Bytes)
  | send (i : Id)
  | merge (i : Id) (o : CrString Id)

/-- The own count of a replica can be raised `n` times within `ptrdiff_t`. -/
def CrString.Room (n : Nat) (me : CrString Id) : Prop := me.c.c.counts me.c.i + n < 2 ^ 63

instance (n : Nat) (me : CrString Id) : Decidable (me.Room n) := inferInstanceAs (Decidable (_ < _))

def Replicas.put (r : Replicas Id) (i : Id) (me : CrString Id) : Replicas Id :=
  { r with state := Function.update r.state i me }

inductive ReplicaStep (dtl : Dtl) : Replicas Id → ReplicaEvent Id → Replicas Id → Prop where
  | initSet {r : Replicas Id} {i : Id} {s : Bytes} :
      ReplicaStep dtl r (.initSet i s) (r.put i ((r.state i).initSet s))
  | set {r : Replicas Id} {i : Id} {s : Bytes} :
      (r.state i).Room 1 → ReplicaStep dtl r (.set i s) (r.put i ((r.state i).set s))
  | send {r : Replicas Id} {i : Id} :
      ReplicaStep dtl r (.send i) { r with sent := r.state i :: r.sent }
  | merge {r : Replicas Id} {i : Id} {o me : CrString Id} {result : MergeResult} :
      o ∈ r.sent → (r.state i).Room 1 → (r.state i).merge dtl o = .ok (result, me) →
      ReplicaStep dtl r (.merge i o) (r.put i me)

abbrev ReplicaRun (dtl : Dtl) : List (ReplicaEvent Id) → Replicas Id → Prop :=
  Run (fun r => r = { state := CrString.new }) (ReplicaStep dtl)

/-- Two replicas merge each other's state as it was before. -/
def exchange (dtl : Dtl) (pair : CrString Id × CrString Id) :
    Outcome (CrString Id × CrString Id) := do
  let (_, first) ← pair.1.merge dtl pair.2
  let (_, second) ← pair.2.merge dtl pair.1
  pure (first, second)

def exchanges (dtl : Dtl) : Nat → CrString Id × CrString Id → Outcome (CrString Id × CrString Id)
  | 0, pair => pure pair
  | n + 1, pair => do
    let pair ← exchange dtl pair
    exchanges dtl n pair

end Firestr.Util
