import Firestr.Util.QueueRuns

/-! The threads that work off a queue: of a service, of the master post office,
of the connection manager and of the app reaper. Their owner stops them and
joins them. -/

set_option autoImplicit false

namespace Firestr.Util

open Firestr.Library.Monitor Firestr.Library.Monitor.Sleepers Firestr.Library.Runs

/-- The loops that are alike: `service_thread`, `out_thread`, `tcp_send_thread` and
`reap_thread`. -/
inductive Loop where
  | service
  | out
  | tcpSend
  | reap
  deriving DecidableEq, Repr

namespace Loop

/-- The loop tests `_done` of its owner. The reaper's tests `is_done` of the queue. -/
def testsOwner : Loop → Bool
  | service | out | tcpSend => true
  | reap => false

/-- A message that comes when the owner is done is not handled. -/
def testsAgain : Loop → Bool
  | service => true
  | out | tcpSend | reap => false

end Loop

/-- Where a thread is in its loop. What it does with an item may throw, and is caught. -/
inductive Place (Item : Type) where
  | head
  | calling
  | inside
  | got (v : Item)
  | working (v : Item)
  | ended
  deriving DecidableEq, Repr

variable {Item : Type}

structure Worker (Item : Type) where
  shared : SharedQueue Unit Item := {}
  done : Bool := false
  place : Place Item := .head
  handled : List Item := []

inductive WorkerEvent (Item : Type) where
  | push (v : Item)
  | wake
  /-- The owner sets its `_done`. -/
  | stop
  /-- The owner calls `done` of the queue, and joins the thread. -/
  | done
  | step

/-- Where a thread is after a pass of `pop`. -/
def Pass.place : Pass Item → Place Item
  | .sleep => .inside
  | .gaveUp => .head
  | .took v => .got v

namespace Worker

def isOver (loop : Loop) (s : Worker Item) : Bool :=
  if loop.testsOwner then s.done else s.shared.queue.done

/-- A step of the thread itself. The work on an item may never end. -/
inductive OwnStep (loop : Loop) (ends : Item → Prop) (s : Worker Item) : Worker Item → Prop where
  | test : s.place = .head →
      OwnStep loop ends s { s with place := if s.isOver loop then .ended else .calling }
  | enter {pass : Pass Item} {shared : SharedQueue Unit Item} : s.place = .calling →
      QueueStep s.shared (.enter () pass) shared →
      OwnStep loop ends s { s with shared := shared, place := pass.place }
  | resume {pass : Pass Item} {shared : SharedQueue Unit Item} : s.place = .inside →
      QueueStep s.shared (.resume () pass) shared →
      OwnStep loop ends s { s with shared := shared, place := pass.place }
  | begin {v : Item} : s.place = .got v → ¬(loop.testsAgain = true ∧ s.done = true) →
      OwnStep loop ends s { s with place := .working v, handled := s.handled ++ [v] }
  | leave {v : Item} : s.place = .got v → loop.testsAgain = true → s.done = true →
      OwnStep loop ends s { s with place := .head }
  | finish {v : Item} : s.place = .working v → ends v →
      OwnStep loop ends s { s with place := .head }

inductive Step (loop : Loop) (ends : Item → Prop) (s : Worker Item) :
    WorkerEvent Item → Worker Item → Prop where
  | push {v : Item} {shared : SharedQueue Unit Item} : QueueStep s.shared (.push v) shared →
      Step loop ends s (.push v) { s with shared := shared }
  | wake {shared : SharedQueue Unit Item} : QueueStep s.shared (.wake ()) shared →
      Step loop ends s .wake { s with shared := shared }
  | stop : Step loop ends s .stop { s with done := true }
  | done {shared : SharedQueue Unit Item} : (loop.testsOwner = true → s.done = true) →
      QueueStep s.shared .done shared → Step loop ends s .done { s with shared := shared }
  | step {s' : Worker Item} : OwnStep loop ends s s' → Step loop ends s .step s'

end Worker

abbrev WorkerRun (loop : Loop) (ends : Item → Prop) : List (WorkerEvent Item) → Worker Item → Prop :=
  Run (fun s => s = {}) (Worker.Step loop ends)

def WorkerEvent.own : WorkerEvent Item → Bool
  | .step => true
  | _ => false

def WorkerEvent.pushed : WorkerEvent Item → Option Item
  | .push v => some v
  | _ => none

namespace Worker

variable {loop : Loop} {ends : Item → Prop} {s s' : Worker Item} {event : WorkerEvent Item}
  {events : List (WorkerEvent Item)}

/-- What the thread has taken and not begun with. Only a message that came when the owner was
done stays so. -/
inductive Holds (loop : Loop) (s : Worker Item) : List Item → Prop where
  | nothing : (∀ v, s.place ≠ .got v) → Holds loop s []
  | item {v : Item} : s.place = .got v → Holds loop s [v]
  | left {v : Item} : s.place = .head ∨ s.place = .ended → loop.testsAgain = true →
      s.done = true → Holds loop s [v]

/-- The thread is among those that sleep or have been woken while it is inside `pop`. -/
structure Seated (loop : Loop) (s : Worker Item) : Prop where
  inside : s.place = .inside →
    s.shared.sleepers.waiting.length + s.shared.sleepers.woken.length = 1
  outside : s.place ≠ .inside →
    s.shared.sleepers.waiting.length + s.shared.sleepers.woken.length = 0
  awake : s.shared.Awake
  owner : loop.testsOwner = true → s.shared.queue.done = true → s.done = true

theorem length_wake {sleepers : Sleepers Unit} {t : Unit} (waiting : t ∈ sleepers.waiting) :
    (sleepers.wake t).waiting.length + (sleepers.wake t).woken.length =
      sleepers.waiting.length + sleepers.woken.length := by
  have positive := List.length_pos_of_mem waiting
  simp only [wake, List.length_erase_of_mem waiting, List.length_cons]
  omega

theorem length_notifyOne {sleepers sleepers' : Sleepers Unit}
    (notified : NotifyOne sleepers sleepers') :
    sleepers'.waiting.length + sleepers'.woken.length =
      sleepers.waiting.length + sleepers.woken.length := by
  cases notified with
  | nobody => rfl
  | wake waiting => exact length_wake waiting

/-- A step of the other threads leaves the thread where it is. -/
theorem Seated.others (seated : Seated loop s) {shared : SharedQueue Unit Item}
    {event : QueueEvent Unit Item} (step : QueueStep s.shared event shared)
    (length : shared.sleepers.waiting.length + shared.sleepers.woken.length =
      s.shared.sleepers.waiting.length + s.shared.sleepers.woken.length)
    (owner : loop.testsOwner = true → shared.queue.done = true → s.done = true) :
    Seated loop { s with shared := shared } where
  inside := fun place => length.trans (seated.inside place)
  outside := fun place => length.trans (seated.outside place)
  awake := step.awake seated.awake
  owner := owner

/-- After a pass the thread sleeps, or has no seat. -/
theorem Seated.pass (seated : Seated loop s) {pass : Pass Item} {queue : Queue Item}
    {sleepers : Sleepers Unit} (free : sleepers.waiting.length + sleepers.woken.length = 0)
    (passed : s.shared.queue.waitPass = .ok (pass, queue))
    (awake : SharedQueue.Awake { queue := queue, sleepers := pass.settle () sleepers }) :
    Seated loop { s with
      shared := { queue := queue, sleepers := pass.settle () sleepers }
      place := pass.place } := by
  refine ⟨?_, ?_, awake, ?_⟩
  · intro place
    cases pass with
    | sleep =>
        simp only [Pass.settle, sleep, List.length_cons]
        omega
    | gaveUp | took v => cases place
  · intro place
    cases pass with
    | sleep => exact absurd rfl place
    | gaveUp | took v => exact free
  · intro tests told
    exact seated.owner tests ((Queue.waitPass_taken passed).2 ▸ told)

theorem OwnStep.seated (own : OwnStep loop ends s s') (seated : Seated loop s) : Seated loop s' := by
  have moved : ∀ place, s.place ≠ .inside → place ≠ .inside →
      ∀ handled, Seated loop { s with place := place, handled := handled } :=
    fun place away elsewhere handled =>
      ⟨fun inside => absurd inside elsewhere, fun _ => seated.outside away, seated.awake,
        seated.owner⟩
  cases own with
  | test here =>
      refine moved _ (by simp [here]) ?_ _
      split <;> simp
  | enter here step =>
      have awake := step.awake seated.awake
      cases step with
      | enter _ _ passed => exact seated.pass (seated.outside (by simp [here])) passed awake
  | resume here step =>
      have awake := step.awake seated.awake
      have seats := seated.inside here
      cases step with
      | resume woken passed =>
          refine seated.pass ?_ passed awake
          have positive := List.length_pos_of_mem woken
          simp only [Sleepers.resume, List.length_erase_of_mem woken]
          omega
  | begin here _ => exact moved _ (by simp [here]) (by simp) _
  | leave here _ _ => exact moved _ (by simp [here]) (by simp) _
  | finish here _ => exact moved _ (by simp [here]) (by simp) _

theorem Step.seated (step : Step loop ends s event s') (seated : Seated loop s) : Seated loop s' := by
  cases step with
  | push pushed =>
      refine seated.others pushed ?_ ?_
      · cases pushed with
        | push _ notified | emplacePush _ notified => exact length_notifyOne notified
      · cases pushed with
        | push added _ | emplacePush added _ =>
            simp only [Queue.push_ok, Queue.emplacePush_ok] at added
            cases added
            exact seated.owner
  | wake woken =>
      cases woken with
      | wake waiting => exact seated.others (.wake waiting) (length_wake waiting) seated.owner
  | stop => exact ⟨seated.inside, seated.outside, seated.awake, fun _ _ => rfl⟩
  | done stopped finished =>
      cases finished with
      | done =>
          refine seated.others .done ?_ fun tests _ => stopped tests
          simp only [notifyAll, List.length_append, List.length_nil]
          omega
  | step own => exact own.seated seated

theorem seated_of_run (run : WorkerRun loop ends events s) : Seated loop s := by
  refine run.invariant (fun _ s => Seated loop s) ?_ fun _ _ _ _ _ seated step => step.seated seated
  rintro s rfl
  exact ⟨by simp, fun _ => rfl, ⟨Served.start, by simp⟩, by simp⟩

section Order

/-- What was put in the queue, in its order: what the thread has begun with, what it holds, and
what is left. -/
def Ordered (loop : Loop) (pushed : List Item) (s : Worker Item) : Prop :=
  ∃ held, Holds loop s held ∧ pushed = s.handled ++ held ++ s.shared.queue.q

theorem Holds.update {held : List Item} (holds : Holds loop s held) (shared : SharedQueue Unit Item)
    {done : Bool} (later : s.done = true → done = true) :
    Holds loop { s with shared := shared, done := done } held := by
  cases holds with
  | nothing empty => exact .nothing empty
  | item here => exact .item here
  | left here again told => exact .left here again (later told)

theorem Ordered.pass {pushed : List Item} (ordered : Ordered loop pushed s)
    (busy : s.place = .calling ∨ s.place = .inside) {pass : Pass Item} {queue : Queue Item}
    {sleepers : Sleepers Unit} (passed : s.shared.queue.waitPass = .ok (pass, queue)) :
    Ordered loop pushed { s with
      shared := { queue := queue, sleepers := sleepers }
      place := pass.place } := by
  obtain ⟨held, holds, whole⟩ := ordered
  have taken := (Queue.waitPass_taken passed).1
  cases holds with
  | nothing =>
      rw [List.append_nil, taken] at whole
      cases pass with
      | sleep | gaveUp => exact ⟨[], .nothing (by simp [Pass.place]), by simpa [Pass.item] using whole⟩
      | took v => exact ⟨[v], .item rfl, by simpa [Pass.item] using whole⟩
  | item here => simp [here] at busy
  | left here => rcases here with here | here <;> simp [here] at busy

theorem OwnStep.ordered {pushed : List Item} (own : OwnStep loop ends s s')
    (ordered : Ordered loop pushed s) : Ordered loop pushed s' := by
  cases own with
  | test here =>
      obtain ⟨held, holds, whole⟩ := ordered
      cases holds with
      | nothing =>
          refine ⟨[], .nothing ?_, whole⟩
          intro v
          simp only
          split <;> simp
      | item there => rw [here] at there; cases there
      | left _ again told =>
          have owner : loop.testsOwner = true := by cases loop <;> first | rfl | cases again
          refine ⟨_, .left (.inr ?_) again told, whole⟩
          simp only [Worker.isOver, owner, told, if_true]
  | enter here step =>
      cases step with
      | enter _ _ passed => exact ordered.pass (.inl here) passed
  | resume here step =>
      cases step with
      | resume _ passed => exact ordered.pass (.inr here) passed
  | @begin v here _ =>
      obtain ⟨held, holds, whole⟩ := ordered
      cases holds with
      | nothing empty => exact absurd here (empty v)
      | item there =>
          rw [here] at there
          cases there
          exact ⟨[], .nothing (by simp), by simpa using whole⟩
      | left there => rcases there with there | there <;> simp [here] at there
  | @leave v here again told =>
      obtain ⟨held, holds, whole⟩ := ordered
      cases holds with
      | nothing empty => exact absurd here (empty v)
      | item there =>
          rw [here] at there
          cases there
          exact ⟨[v], .left (.inl rfl) again told, whole⟩
      | left there => rcases there with there | there <;> simp [here] at there
  | finish here _ =>
      obtain ⟨held, holds, whole⟩ := ordered
      cases holds with
      | nothing => exact ⟨[], .nothing (by simp), whole⟩
      | item there => rw [here] at there; cases there
      | left there => rcases there with there | there <;> simp [here] at there

theorem Step.ordered {pushed : List Item} (step : Step loop ends s event s')
    (ordered : Ordered loop pushed s) : Ordered loop (pushed ++ event.pushed.toList) s' := by
  cases step with
  | push pushed =>
      obtain ⟨held, holds, whole⟩ := ordered
      refine ⟨held, holds.update _ id, ?_⟩
      have turn := pushed.order rfl
      simp only [QueueEvent.added, QueueEvent.taken, Option.toList, List.nil_append] at turn
      simp only [WorkerEvent.pushed, whole, Option.toList, List.append_assoc, turn]
  | wake woken =>
      obtain ⟨held, holds, whole⟩ := ordered
      cases woken with
      | wake => exact ⟨held, holds.update _ id, by simpa [WorkerEvent.pushed] using whole⟩
  | stop =>
      obtain ⟨held, holds, whole⟩ := ordered
      exact ⟨held, holds.update _ fun _ => rfl, by simpa [WorkerEvent.pushed] using whole⟩
  | done _ finished =>
      obtain ⟨held, holds, whole⟩ := ordered
      cases finished with
      | done =>
          refine ⟨held, holds.update _ id, ?_⟩
          simpa [WorkerEvent.pushed, Queue.setDone] using whole
  | step own => simpa [WorkerEvent.pushed] using own.ordered ordered

theorem ordered_of_run (run : WorkerRun loop ends events s) :
    Ordered loop (events.filterMap WorkerEvent.pushed) s := by
  induction run with
  | start started =>
      rw [started]
      exact ⟨[], .nothing (by simp), rfl⟩
  | step _ stepped ih =>
      rw [filterMap_append_one]
      exact stepped.ordered ih

theorem Holds.few {held : List Item} (holds : Holds loop s held) : held.length ≤ 1 := by
  cases holds <;> simp

/-- The thread of a service has handled a message, and has been woken for the next. -/
def called : Worker Nat where
  shared := { queue := { q := [6] }, sleepers := { woken := [()] } }
  place := .inside
  handled := [5]

def calledEvents : List (WorkerEvent Nat) :=
  [.step, .step, .push 5, .step, .step, .step, .step, .step, .push 6]

theorem called_run : WorkerRun .service (fun _ => True) calledEvents called := by
  have slept : ∀ handled : List Nat, OwnStep .service (fun _ => True)
      { place := .calling, handled := handled }
      { shared := { sleepers := { waiting := [()] } }, place := .inside, handled := handled } :=
    fun handled => @OwnStep.enter _ _ _ { place := .calling, handled := handled } .sleep _ rfl
      (.enter List.not_mem_nil List.not_mem_nil rfl)
  have notified : NotifyOne { waiting := [()] } { woken := [()] } :=
    NotifyOne.wake (t := ()) (List.mem_singleton_self ())
  have calling : WorkerRun .service (fun _ => True) [.step] ({ place := .calling } : Worker Nat) :=
    .single rfl (Step.step (.test rfl))
  have woken : WorkerRun .service (fun _ => True) [.step, .step, .push 5] _ :=
    (calling.step (Step.step (slept []))).step (.push (.push rfl notified))
  have working : WorkerRun .service (fun _ => True) _
      ({ place := .working 5, handled := [5] } : Worker Nat) :=
    (woken.step (Step.step (@OwnStep.resume _ _ _ _ (.took 5) _ rfl
      (.resume (List.mem_singleton_self ()) rfl)))).step (Step.step (.begin rfl (by simp)))
  have again : WorkerRun .service (fun _ => True) _
      ({ place := .calling, handled := [5] } : Worker Nat) :=
    (working.step (Step.step (.finish rfl trivial))).step (Step.step (.test rfl))
  exact (again.step (Step.step (slept [5]))).step (.push (.push rfl notified))

/-- The items are worked off in their order, each once. At most one that has been taken is not
begun with, and while there is another one the thread has been woken for it. -/
theorem worker_in_order (run : WorkerRun loop ends events s) :
    (∃ held, held.length ≤ 1 ∧
      events.filterMap WorkerEvent.pushed = s.handled ++ held ++ s.shared.queue.q) ∧
    (s.place = .inside → s.shared.queue.q ≠ [] → () ∈ s.shared.sleepers.woken) := by
  obtain ⟨held, holds, whole⟩ := ordered_of_run run
  refine ⟨⟨held, holds.few, whole⟩, ?_⟩
  intro here some
  have seated := seated_of_run run
  have seats := seated.inside here
  have positive := List.length_pos_of_ne_nil some
  have seat : 0 < s.shared.sleepers.woken.length := by
    rcases seated.awake.1 with nobody | enough
    · rw [nobody, List.length_nil] at seats
      omega
    · omega
  obtain ⟨⟨⟩, woken⟩ := List.exists_mem_of_length_pos seat
  exact woken

theorem worker_in_order_called :
    (∃ held, held.length ≤ 1 ∧ [5, 6] = called.handled ++ held ++ called.shared.queue.q) ∧
      () ∈ called.shared.sleepers.woken := by
  obtain ⟨order, woken⟩ := worker_in_order called_run
  exact ⟨order, woken rfl (List.cons_ne_nil 6 [])⟩

end Order

section Stop

/-- How many more steps the thread has when it has been told to stop. -/
def rank (s : Worker Item) : Nat :=
  match s.place with
  | .got _ => 3
  | .calling | .inside | .working _ => 2
  | .head => 1
  | .ended => 0

theorem Seated.isOver (seated : Seated loop s) (closed : s.shared.queue.done = true) :
    s.isOver loop = true := by
  unfold Worker.isOver
  split
  · exact seated.owner ‹_› closed
  · exact closed

/-- How many items the thread may still begin with then. -/
def unbegun (s : Worker Item) : Nat :=
  match s.place with
  | .got _ => 1
  | _ => 0

/-- The thread gives up soon. -/
theorem OwnStep.stops (own : OwnStep loop ends s s') (seated : Seated loop s)
    (closed : s.shared.queue.done = true) : s'.shared.queue.done = true ∧ s'.rank < s.rank ∧
      s'.handled.length + s'.unbegun ≤ s.handled.length + s.unbegun := by
  have told := seated.isOver closed
  cases own with
  | test here => simp [rank, unbegun, here, told, closed]
  | enter here step =>
      cases step with
      | enter _ _ passed =>
          rw [Queue.waitPass_of_done _ closed] at passed
          cases passed
          simp [rank, unbegun, here, closed, Pass.place]
  | resume here step =>
      cases step with
      | resume _ passed =>
          rw [Queue.waitPass_of_done _ closed] at passed
          cases passed
          simp [rank, unbegun, here, closed, Pass.place]
  | begin here _ => simp [rank, unbegun, here, closed]
  | leave here _ _ => simp [rank, unbegun, here, closed]
  | finish here _ => simp [rank, unbegun, here, closed]

theorem Seated.moves (seated : Seated loop s) (closed : s.shared.queue.done = true)
    (work_ends : ∀ v, ends v) (running : s.place ≠ .ended) : ∃ s', OwnStep loop ends s s' := by
  have passed := Queue.waitPass_of_done _ closed
  cases here : s.place with
  | head => exact ⟨_, .test here⟩
  | calling =>
      have seats := seated.outside (by simp [here])
      have nobody : s.shared.sleepers.waiting = [] := List.length_eq_zero_iff.mp (by omega)
      have none_woken : s.shared.sleepers.woken = [] := List.length_eq_zero_iff.mp (by omega)
      exact ⟨_, .enter here (.enter (by simp [nobody]) (by simp [none_woken]) passed)⟩
  | inside =>
      have seats := seated.inside here
      rw [seated.awake.2 closed, List.length_nil] at seats
      have seat : 0 < s.shared.sleepers.woken.length := by omega
      obtain ⟨⟨⟩, woken⟩ := List.exists_mem_of_length_pos seat
      exact ⟨_, .resume here (.resume woken passed)⟩
  | got v =>
      by_cases leaves : loop.testsAgain = true ∧ s.done = true
      · exact ⟨_, .leave here leaves.1 leaves.2⟩
      · exact ⟨_, .begin here leaves⟩
  | working v => exact ⟨_, .finish here (work_ends v)⟩
  | ended => exact absurd here running

theorem Step.stops (step : Step loop ends s event s') (seated : Seated loop s)
    (closed : s.shared.queue.done = true) : s'.shared.queue.done = true ∧
      s'.rank + event.own.toNat ≤ s.rank ∧
      s'.handled.length + s'.unbegun ≤ s.handled.length + s.unbegun := by
  cases step with
  | push pushed =>
      cases pushed with
      | push added _ | emplacePush added _ =>
          simp only [Queue.push_ok, Queue.emplacePush_ok] at added
          cases added
          exact ⟨closed, Nat.le_refl _, Nat.le_refl _⟩
  | wake woken =>
      cases woken with
      | wake => exact ⟨closed, Nat.le_refl _, Nat.le_refl _⟩
  | stop => exact ⟨closed, Nat.le_refl _, Nat.le_refl _⟩
  | done _ finished =>
      cases finished with
      | done => exact ⟨rfl, Nat.le_refl _, Nat.le_refl _⟩
  | step own => exact own.stops seated closed

theorem Seated.stops (seated : Seated loop s) (closed : s.shared.queue.done = true)
    {later : List (WorkerEvent Item)}
    (further : Run (fun first => first = s) (Step loop ends) later s') :
    Seated loop s' ∧ s'.shared.queue.done = true ∧
      s'.rank + later.countP WorkerEvent.own ≤ s.rank ∧
      s'.handled.length + s'.unbegun ≤ s.handled.length + s.unbegun := by
  induction further with
  | start started =>
      rw [started]
      exact ⟨seated, closed, Nat.le_refl _, Nat.le_refl _⟩
  | @step later s₁ s₂ event _ stepped ih =>
      obtain ⟨seated₁, closed₁, few, begun⟩ := ih
      obtain ⟨closed₂, less, begun₂⟩ := stepped.stops seated₁ closed₁
      refine ⟨stepped.seated seated₁, closed₂, ?_, Nat.le_trans begun₂ begun⟩
      rw [List.countP_append, List.countP_singleton]
      cases own : event.own <;> simp [own] at less ⊢ <;> omega

/-- Alone, the thread goes on until it has ended. -/
theorem Seated.comes_to_end (seated : Seated loop s) (closed : s.shared.queue.done = true)
    (work_ends : ∀ v, ends v) :
    ∃ steps s', Run (fun first => first = s) (Step loop ends) (List.replicate steps .step) s' ∧
      s'.place = .ended := by
  induction left : s.rank using Nat.strongRecOn generalizing s with
  | ind left ih =>
      by_cases ended : s.place = .ended
      · exact ⟨0, s, .start rfl, ended⟩
      · obtain ⟨s₁, own⟩ := seated.moves closed work_ends ended
        obtain ⟨closed₁, less, -⟩ := own.stops seated closed
        obtain ⟨steps, s', rest, last⟩ := ih _ (left ▸ less) (own.seated seated) closed₁ rfl
        have first : Run (fun first => first = s) (Step loop ends) [.step] s₁ :=
          .single rfl (.step own)
        exact ⟨steps + 1, s', first.trans rest, last⟩

/-- After `done`, where the work on each item ends, `join` returns: the thread can always go on
until it has ended. It has ended after three steps of its own at the latest, and begins with one
more item at most. -/
theorem worker_stops (run : WorkerRun loop ends events s) (closed : s.shared.queue.done = true)
    (work_ends : ∀ v, ends v) :
    (s.place ≠ .ended → ∃ s', Step loop ends s .step s') ∧
    (∃ steps s', Run (fun first => first = s) (Step loop ends) (List.replicate steps .step) s' ∧
      s'.place = .ended) ∧
    ∀ later s', Run (fun first => first = s) (Step loop ends) later s' →
      later.countP WorkerEvent.own ≤ 3 ∧ s'.handled.length ≤ s.handled.length + 1 := by
  have seated := seated_of_run run
  refine ⟨fun running => ?_, seated.comes_to_end closed work_ends, fun later s' further => ?_⟩
  · obtain ⟨s', own⟩ := seated.moves closed work_ends running
    exact ⟨s', .step own⟩
  · obtain ⟨-, -, few, begun⟩ := seated.stops closed further
    have most : s.rank ≤ 3 := by
      unfold rank
      split <;> omega
    have one : s.unbegun ≤ 1 := by
      unfold unbegun
      split <;> omega
    omega

/-- The owner has stopped it. -/
def stopped : Worker Nat where
  shared := { queue := { q := [6], done := true }, sleepers := { woken := [()] } }
  done := true
  place := .inside
  handled := [5]

theorem stopped_run :
    WorkerRun .service (fun _ => True) (calledEvents ++ [.stop] ++ [.done]) stopped :=
  (called_run.step .stop).step (.done (fun _ => rfl) .done)

theorem worker_stops_stopped :
    (stopped.place ≠ .ended → ∃ s', Step .service (fun _ => True) stopped .step s') ∧
    (∃ steps s', Run (fun first => first = stopped) (Step .service fun _ => True)
      (List.replicate steps .step) s' ∧ s'.place = .ended) ∧
    ∀ later s', Run (fun first => first = stopped) (Step .service fun _ => True) later s' →
      later.countP WorkerEvent.own ≤ 3 ∧ s'.handled.length ≤ stopped.handled.length + 1 :=
  worker_stops stopped_run rfl fun _ => trivial

end Stop

end Worker

end Firestr.Util
