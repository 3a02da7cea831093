import Mathlib.Tactic.Common

/-! Programs that change a state, and keep what they have done when they end with
an error. -/

set_option autoImplicit false

namespace Firestr.Library.Effects

/-- A program from a state to a value or an error, and the state after it. -/
def Program (State Error Value : Type) : Type := State → Except Error Value × State

variable {State Error Value Result Item : Type}

namespace Program

instance programMonad : Monad (Program State Error) where
  pure value state := (.ok value, state)
  bind program continuation state :=
    match program state with
    | (.ok value, state) => continuation value state
    | (.error error, state) => (.error error, state)

def lift (outcome : Except Error Value) : Program State Error Value := fun state => (outcome, state)

def get : Program State Error State := fun state => (.ok state, state)

def modify (update : State → State) : Program State Error Unit := fun state => (.ok (), update state)

/-- The program for each item, one after the other. -/
def forEach (body : Item → Program State Error Unit) : List Item → Program State Error Unit
  | [] => pure ()
  | item :: rest => do
    body item
    forEach body rest

section Equations

variable {program : Program State Error Value} {continuation : Value → Program State Error Result}
  {state next : State}

@[simp] theorem pure_apply (value : Value) :
    (pure value : Program State Error Value) state = (.ok value, state) := rfl

@[simp] theorem lift_apply (outcome : Except Error Value) :
    (lift outcome : Program State Error Value) state = (outcome, state) := rfl

@[simp] theorem get_bind (continuation : State → Program State Error Result) :
    (get >>= continuation) state = continuation state state := rfl

@[simp] theorem modify_bind (update : State → State)
    (continuation : Unit → Program State Error Result) :
    (modify update >>= continuation) state = continuation () (update state) := rfl

theorem bind_ok {value : Value} (success : program state = (.ok value, next)) :
    (program >>= continuation) state = continuation value next := by
  change (match program state with
    | (.ok value, state) => continuation value state
    | (.error error, state) => (.error error, state)) = _
  rw [success]

theorem bind_error {error : Error} (failure : program state = (.error error, next)) :
    (program >>= continuation) state = (.error error, next) := by
  change (match program state with
    | (.ok value, state) => continuation value state
    | (.error error, state) => (.error error, state)) = _
  rw [failure]

/-- A sequence ends with a value exactly when both of its parts do. -/
theorem bind_ok_iff {result : Result} {final : State} :
    (program >>= continuation) state = (.ok result, final) ↔
      ∃ value middle, program state = (.ok value, middle) ∧
        continuation value middle = (.ok result, final) := by
  constructor
  · intro success
    cases ran : program state with
    | mk outcome middle =>
        cases outcome with
        | ok value => exact ⟨value, middle, rfl, (bind_ok ran).symm.trans success⟩
        | error error => cases (bind_error ran).symm.trans success
  · rintro ⟨value, middle, first, second⟩
    exact (bind_ok first).trans second

theorem lift_ok_iff {outcome : Except Error Value} {value : Value} {final : State} :
    (lift outcome : Program State Error Value) state = (.ok value, final) ↔
      outcome = .ok value ∧ final = state := by
  rw [lift_apply, Prod.mk.injEq]
  exact and_congr_right fun _ => eq_comm

@[simp] theorem lift_bind_ok (value : Value) (continuation : Value → Program State Error Result) :
    (lift (.ok value) >>= continuation) state = continuation value state := rfl

/-- A lifted sequence is the sequence of its lifted parts. -/
theorem lift_bind (outcome : Except Error Value) (second : Value → Except Error Item)
    (continuation : Item → Program State Error Result) :
    (lift (outcome >>= second) >>= continuation) =
      (lift outcome >>= fun value => lift (second value) >>= continuation) := by
  cases outcome with
  | ok value => rfl
  | error error => rfl

@[simp] theorem modify_apply (update : State → State) :
    (modify update : Program State Error Unit) state = (.ok (), update state) := rfl

end Equations

/-- The program ends with a value and a state that meet `post`, or with an error
and a state that meet `fails`. -/
def Leaves (fails : Error → State → Prop) (post : Value → State → Prop) :
    Except Error Value × State → Prop
  | (.ok value, state) => post value state
  | (.error error, state) => fails error state

section Rules

variable {fails : Error → State → Prop} {state : State}

theorem Leaves.mono {post weaker : Value → State → Prop} {fails' : Error → State → Prop}
    {result : Except Error Value × State} (leaves : Leaves fails post result)
    (value : ∀ v s, post v s → weaker v s) (error : ∀ e s, fails e s → fails' e s) :
    Leaves fails' weaker result := by
  obtain ⟨outcome, last⟩ := result
  cases outcome with
  | ok v => exact value v last leaves
  | error e => exact error e last leaves

theorem Leaves.bind {middle : Value → State → Prop} {post : Result → State → Prop}
    {program : Program State Error Value} {continuation : Value → Program State Error Result}
    (first : Leaves fails middle (program state))
    (second : ∀ value next, middle value next → Leaves fails post (continuation value next)) :
    Leaves fails post ((program >>= continuation) state) := by
  cases ran : program state with
  | mk outcome next =>
      rw [ran] at first
      cases outcome with
      | ok value =>
          rw [bind_ok ran]
          exact second value next first
      | error error =>
          rw [bind_error ran]
          exact first

/-- The loop rule: an invariant of the items that are done. -/
theorem Leaves.forEach {invariant : List Item → State → Prop}
    {body : Item → Program State Error Unit} (items : List Item) (start : invariant [] state)
    (pass : ∀ done item rest s, items = done ++ item :: rest → invariant done s →
      Leaves fails (fun _ => invariant (done ++ [item])) (body item s)) :
    Leaves fails (fun _ => invariant items) (Program.forEach body items state) := by
  suffices rule : ∀ done rest s, items = done ++ rest → invariant done s →
      Leaves fails (fun _ => invariant items) (Program.forEach body rest s) by
    exact rule [] items state rfl start
  intro done rest
  induction rest generalizing done with
  | nil =>
      intro s whole holds
      rw [List.append_nil] at whole
      rw [whole]
      exact holds
  | cons item rest ih =>
      intro s whole holds
      refine (pass done item rest s whole holds).bind fun _ next kept => ?_
      exact ih (done ++ [item]) next (by rw [whole]; simp) kept

/-- Without errors. -/
theorem leaves_ok_iff {post : Value → State → Prop} {result : Except Error Value × State} :
    Leaves (fun _ _ => False) post result ↔
      ∃ value next, result = (.ok value, next) ∧ post value next := by
  obtain ⟨outcome, last⟩ := result
  cases outcome with
  | ok value =>
      constructor
      · exact fun leaves => ⟨value, last, rfl, leaves⟩
      · rintro ⟨value, next, ⟨⟩, post⟩
        exact post
  | error error =>
      constructor
      · exact False.elim
      · rintro ⟨value, next, ⟨⟩, -⟩

theorem forEach_ok (invariant : List Item → State → Prop)
    {body : Item → Program State Error Unit} (items : List Item) (start : invariant [] state)
    (pass : ∀ done item rest s, items = done ++ item :: rest → invariant done s →
      ∃ next, body item s = (.ok (), next) ∧ invariant (done ++ [item]) next) :
    ∃ next, Program.forEach body items state = (.ok (), next) ∧ invariant items next := by
  have leaves : Leaves (fun _ _ => False) (fun _ => invariant items)
      (Program.forEach body items state) := by
    refine Leaves.forEach items start fun done item rest s whole holds => ?_
    obtain ⟨next, success, kept⟩ := pass done item rest s whole holds
    exact leaves_ok_iff.mpr ⟨(), next, success, kept⟩
  obtain ⟨_, next, success, holds⟩ := leaves_ok_iff.mp leaves
  exact ⟨next, success, holds⟩

end Rules

section Ghosts

variable {Ghost : Type} {program : Program State Error Value} {state next : State}

/-- The program beside a ghost state, which it does not touch. -/
def beside (program : Program State Error Value) : Program (State × Ghost) Error Value :=
  fun both => ((program both.1).1, (program both.1).2, both.2)

/-- A step of the ghost state alone. -/
def record (update : Ghost → Ghost) : Program (State × Ghost) Error Unit :=
  modify fun both => (both.1, update both.2)

/-- Without its ghost state the first program is the second. -/
def Erases (ghostly : Program (State × Ghost) Error Value)
    (program : Program State Error Value) : Prop :=
  ∀ state ghost, ((ghostly (state, ghost)).1, (ghostly (state, ghost)).2.1) = program state

theorem Erases.beside (program : Program State Error Value) :
    Erases (beside program : Program (State × Ghost) Error Value) program := fun _ _ => rfl

theorem Erases.pure (value : Value) :
    Erases (Pure.pure value : Program (State × Ghost) Error Value)
      (Pure.pure value : Program State Error Value) := fun _ _ => rfl

theorem Erases.lift (outcome : Except Error Value) :
    Erases (Program.lift outcome : Program (State × Ghost) Error Value)
      (Program.lift outcome : Program State Error Value) := fun _ _ => rfl

theorem Erases.bind {ghostly : Program (State × Ghost) Error Value}
    {continuation : Value → Program (State × Ghost) Error Result}
    {plain : Value → Program State Error Result} (first : Erases ghostly program)
    (second : ∀ value, Erases (continuation value) (plain value)) :
    Erases (ghostly >>= continuation) (program >>= plain) := by
  intro state ghost
  have same := first state ghost
  cases ran : ghostly (state, ghost) with
  | mk outcome both =>
      obtain ⟨next, last⟩ := both
      rw [ran] at same
      cases outcome with
      | ok value =>
          rw [bind_ok ran, bind_ok same.symm]
          exact second value next last
      | error error => rw [bind_error ran, bind_error same.symm]

/-- A step of the ghost state is not there without it. -/
theorem Erases.record {update : Ghost → Ghost}
    {continuation : Unit → Program (State × Ghost) Error Value}
    (rest : Erases (continuation ()) program) :
    Erases (Program.record update >>= continuation) program :=
  fun state ghost => rest state (update ghost)

theorem Erases.ok_iff {ghostly : Program (State × Ghost) Error Value}
    (erases : Erases ghostly program) (ghost : Ghost) {value : Value} :
    program state = (.ok value, next) ↔
      ∃ last, ghostly (state, ghost) = (.ok value, next, last) := by
  rw [← erases state ghost]
  constructor
  · intro success
    obtain ⟨outcome, reached⟩ := Prod.mk.inj success
    exact ⟨_, Prod.ext outcome (Prod.ext reached rfl)⟩
  · rintro ⟨last, success⟩
    rw [success]

theorem beside_bind_ok_iff {ghost : Ghost} {result : Result} {final : State × Ghost}
    {continuation : Value → Program (State × Ghost) Error Result} :
    (beside program >>= continuation) (state, ghost) = (.ok result, final) ↔
      ∃ value next, program state = (.ok value, next) ∧
        continuation value (next, ghost) = (.ok result, final) := by
  rw [bind_ok_iff]
  constructor
  · rintro ⟨value, ⟨next, last⟩, first, second⟩
    obtain ⟨outcome, both⟩ := Prod.mk.inj first
    obtain ⟨reached, same⟩ := Prod.mk.inj both
    rw [← same] at second
    exact ⟨value, next, Prod.ext outcome reached, second⟩
  · rintro ⟨value, next, first, second⟩
    refine ⟨value, (next, ghost), ?_, second⟩
    rw [beside, first]

@[simp] theorem beside_get_bind {ghost : Ghost}
    (continuation : State → Program (State × Ghost) Error Result) :
    (beside get >>= continuation) (state, ghost) = continuation state (state, ghost) := rfl

end Ghosts

end Program

end Firestr.Library.Effects
