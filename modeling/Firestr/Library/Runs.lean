import Mathlib.Data.List.Induction

/-! Labelled runs of a step relation. A run keeps the labels of its steps in
order, and a property of initial states that every step keeps holds after it. -/

set_option autoImplicit false

namespace Firestr.Library.Runs

variable {State Label : Type}

/-- `Run start step labels state`: the steps labelled `labels` lead from a
start state to `state`. -/
inductive Run (start : State → Prop) (step : State → Label → State → Prop) :
    List Label → State → Prop where
  | start {state : State} : start state → Run start step [] state
  | step {labels : List Label} {state next : State} {label : Label} :
      Run start step labels state → step state label next →
      Run start step (labels ++ [label]) next

variable {start : State → Prop} {step : State → Label → State → Prop}

/-- The invariant rule: what holds at the start and survives each step of a
run holds at its end. -/
theorem Run.invariant {labels : List Label} {state : State}
    (run : Run start step labels state) (property : List Label → State → Prop)
    (initial : ∀ state, start state → property [] state)
    (preserved : ∀ labels state label next, Run start step labels state →
      property labels state → step state label next → property (labels ++ [label]) next) :
    property labels state := by
  induction run with
  | start started => exact initial _ started
  | step earlier stepped ih => exact preserved _ _ _ _ earlier ih stepped

theorem Run.single {state next : State} {label : Label} (started : start state)
    (stepped : step state label next) : Run start step [label] next :=
  (Run.start started).step stepped

theorem Run.weaken {weaker : State → Label → State → Prop} {labels : List Label} {state : State}
    (run : Run start step labels state)
    (implies : ∀ state label next, step state label next → weaker state label next) :
    Run start weaker labels state := by
  induction run with
  | start started => exact .start started
  | step _ stepped ih => exact .step ih (implies _ _ _ stepped)

/-- A run goes on with a run from the state it has reached. -/
theorem Run.trans {labels more : List Label} {state last : State}
    (run : Run start step labels state) (rest : Run (fun first => first = state) step more last) :
    Run start step (labels ++ more) last := by
  induction rest with
  | start same =>
      cases same
      rw [List.append_nil]
      exact run
  | step _ stepped ih =>
      rw [← List.append_assoc]
      exact ih.step stepped

/-- Labels that a program executes one after another are a run. -/
theorem Run.of_foldlM {Error : Type} {execute : State → Label → Except Error State}
    {first last : State} (started : start first) (labels : List Label)
    (success : labels.foldlM execute first = .ok last) :
    Run start (fun state label next => execute state label = .ok next) labels last := by
  induction labels using List.reverseRecOn generalizing last with
  | nil =>
      cases success
      exact .start started
  | append_singleton labels label ih =>
      rw [List.foldlM_append] at success
      cases before : labels.foldlM execute first with
      | error error =>
          rw [before] at success
          cases success
      | ok state =>
          rw [before] at success
          change ([label].foldlM execute state) = .ok last at success
          rw [List.foldlM_cons] at success
          cases stepped : execute state label with
          | error error =>
              rw [stepped] at success
              cases success
          | ok next =>
              rw [stepped] at success
              cases success
              exact (ih before).step stepped

end Firestr.Library.Runs
