import Mathlib.Algebra.Group.Nat.Defs
import Mathlib.Tactic.Common

/-! The outcomes of code guarded by the design-by-contract macros. A violated
macro ends the process through `raise`, an exception leaves the handler, and a
read through a pointer to an erased map node has no defined result. -/

set_option autoImplicit false

namespace Firestr.Util

/-- The four kinds of contract, under the macros that test them. -/
inductive Contract where
  | check
  | require
  | ensure
  | invariant
  deriving DecidableEq, Repr

/-- Why a computation has no result. -/
inductive Fault where
  /-- `fire::util::raise`, which calls `exit(1)`. -/
  | raised (contract : Contract) (expression : String)
  /-- A C++ exception with its text. -/
  | thrown (what : String)
  /-- A pointer to a map node that has been erased, or an index out of range. -/
  | dangling
  /-- A loop that has not ended within its fuel. -/
  | diverged
  deriving DecidableEq, Repr

abbrev Outcome (Value : Type) := Except Fault Value

def contract (kind : Contract) (condition : Bool) (expression : String) : Outcome Unit :=
  if condition then .ok () else .error (.raised kind expression)

def check : Bool → String → Outcome Unit := contract .check
def require : Bool → String → Outcome Unit := contract .require
def ensure : Bool → String → Outcome Unit := contract .ensure

@[simp] theorem contract_true (kind : Contract) (expression : String) :
    contract kind true expression = .ok () := rfl

@[simp] theorem check_true (expression : String) : check true expression = .ok () := rfl

@[simp] theorem require_true (expression : String) : require true expression = .ok () := rfl

@[simp] theorem ensure_true (expression : String) : ensure true expression = .ok () := rfl

theorem require_ok_iff {condition : Bool} {expression : String} {result : Unit} :
    require condition expression = .ok result ↔ condition = true := by
  cases condition <;> simp [require, contract]

theorem ensure_ok_iff {condition : Bool} {expression : String} {result : Unit} :
    ensure condition expression = .ok result ↔ condition = true := by
  cases condition <;> simp [ensure, contract]

@[simp] theorem ok_bind {Value Result : Type} (value : Value)
    (continuation : Value → Outcome Result) :
    ((Except.ok value : Outcome Value) >>= continuation) = continuation value := rfl

@[simp] theorem error_bind {Value Result : Type} (fault : Fault)
    (continuation : Value → Outcome Result) :
    ((Except.error fault : Outcome Value) >>= continuation) = .error fault := rfl

@[simp] theorem pure_ok {Value : Type} (value : Value) :
    (pure value : Outcome Value) = .ok value := rfl

theorem not_isEmpty_of_ne_nil {Item : Type} {items : List Item} (some? : items ≠ []) :
    (!items.isEmpty) = true := by
  rw [Bool.not_eq_true', List.isEmpty_eq_false_iff]
  exact some?

theorem bind_ok {Value Result : Type} {source : Outcome Value}
    {continuation : Value → Outcome Result} {result : Result}
    (success : (source >>= continuation) = .ok result) :
    ∃ value, source = .ok value ∧ continuation value = .ok result := by
  cases source with
  | error fault => cases success
  | ok value => exact ⟨value, rfl, success⟩

/-- The value of a computation, or a fallback for one that has none. -/
def valueD {Value : Type} (fallback : Value) : Outcome Value → Value
  | .ok value => value
  | .error _ => fallback

theorem ok_valueD {Value : Type} {fallback : Value} {source : Outcome Value}
    (success : source.isOk = true) : source = .ok (valueD fallback source) := by
  cases source with
  | ok value => rfl
  | error fault => cases success

/-- `size_t` subtraction, which wraps below zero. -/
def subSize (left right : Nat) : Nat :=
  (left + 2 ^ 64 - right % 2 ^ 64) % 2 ^ 64

theorem subSize_of_le {left right : Nat} (ordered : right ≤ left) (small : left < 2 ^ 64) :
    subSize left right = left - right := by
  have smaller : right % 2 ^ 64 = right := Nat.mod_eq_of_lt (by omega)
  rw [subSize, smaller, Nat.add_sub_assoc (by omega), Nat.add_comm]
  omega

end Firestr.Util
