import Mathlib.Tactic.Common

/-! Rules for programs that end with a value or an error: what holds of the
value, and which errors are possible. -/

set_option autoImplicit false

namespace Firestr.Library.Outcomes

variable {Error Value Result Item : Type} {fails : Error → Prop}

/-- The program ends with a value that meets `post`, or with an error that
meets `fails`. -/
def Meets (fails : Error → Prop) (post : Value → Prop) : Except Error Value → Prop
  | .ok value => post value
  | .error error => fails error

theorem Meets.ok {post : Value → Prop} {value : Value} (holds : post value) :
    Meets fails post (.ok value : Except Error Value) := holds

theorem Meets.mono {post weaker : Value → Prop} {program : Except Error Value}
    (meets : Meets fails post program) (implies : ∀ value, post value → weaker value) :
    Meets fails weaker program := by
  cases program with
  | ok value => exact implies value meets
  | error error => exact meets

theorem Meets.weaken {more : Error → Prop} {post : Value → Prop} {program : Except Error Value}
    (meets : Meets fails post program) (implies : ∀ error, fails error → more error) :
    Meets more post program := by
  cases program with
  | ok value => exact meets
  | error error => exact implies error meets

theorem Meets.bind {middle : Value → Prop} {post : Result → Prop} {program : Except Error Value}
    {continuation : Value → Except Error Result} (first : Meets fails middle program)
    (second : ∀ value, middle value → Meets fails post (continuation value)) :
    Meets fails post (program >>= continuation) := by
  cases program with
  | ok value => exact second value first
  | error error => exact first

/-- The loop rule: what every pass keeps holds after the loop. -/
theorem Meets.foldlM {invariant : Value → Prop} {body : Value → Item → Except Error Value}
    (items : List Item)
    (pass : ∀ value, ∀ item ∈ items, invariant value → Meets fails invariant (body value item))
    {value : Value} (initial : invariant value) :
    Meets fails invariant (items.foldlM body value) := by
  induction items generalizing value with
  | nil => exact initial
  | cons item items ih =>
      rw [List.foldlM_cons]
      exact (pass value item List.mem_cons_self initial).bind fun next kept =>
        ih (fun value item member => pass value item (.tail _ member)) kept

/-- The loop rule for loops that end with a value: the invariant is about the
items that have been passed. -/
theorem foldlM_ok (invariant : List Item → Value → Prop) {body : Value → Item → Except Error Value}
    {initial : Value} (items : List Item) (start : invariant [] initial)
    (pass : ∀ done item rest value, items = done ++ item :: rest → invariant done value →
      ∃ next, body value item = .ok next ∧ invariant (done ++ [item]) next) :
    ∃ value, items.foldlM body initial = .ok value ∧ invariant items value := by
  suffices rule : ∀ done rest value, items = done ++ rest → invariant done value →
      ∃ value', rest.foldlM body value = .ok value' ∧ invariant items value' by
    exact rule [] items initial rfl start
  intro done rest
  induction rest generalizing done with
  | nil =>
      intro value whole holds
      rw [List.append_nil] at whole
      exact ⟨value, rfl, whole ▸ holds⟩
  | cons item rest ih =>
      intro value whole holds
      obtain ⟨next, success, kept⟩ := pass done item rest value whole holds
      obtain ⟨last, rest, post⟩ := ih (done ++ [item]) next (by rw [whole]; simp) kept
      refine ⟨last, ?_, post⟩
      rw [List.foldlM_cons, success]
      exact rest

/-- A list of programs that all end with a value gives the list of these. -/
theorem mapM_ok {body : Item → Except Error Value} {value : Item → Value} {items : List Item}
    (success : ∀ item ∈ items, body item = .ok (value item)) :
    items.mapM body = .ok (items.map value) := by
  induction items with
  | nil => rfl
  | cons item items ih =>
      rw [List.mapM_cons, success item List.mem_cons_self,
        ih fun other member => success other (List.mem_cons_of_mem item member)]
      rfl

/-- Programs that undo how each item was made give the values back. -/
theorem mapM_map_ok {make : Value → Item} {body : Item → Except Error Value} {values : List Value}
    (undoes : ∀ value ∈ values, body (make value) = .ok value) :
    (values.map make).mapM body = .ok values := by
  induction values with
  | nil => rfl
  | cons value values ih =>
      rw [List.map_cons, List.mapM_cons, undoes value List.mem_cons_self,
        ih fun other member => undoes other (List.mem_cons_of_mem value member)]
      rfl

theorem Meets.value {post : Value → Prop} {program : Except Error Value}
    (meets : Meets fails post program) {value : Value} (success : program = .ok value) :
    post value := by
  rw [success] at meets
  exact meets

theorem Meets.error {post : Value → Prop} {program : Except Error Value}
    (meets : Meets fails post program) {error : Error} (failure : program = .error error) :
    fails error := by
  rw [failure] at meets
  exact meets

end Firestr.Library.Outcomes
