import Firestr.Util.Queue
import Mathlib.Data.List.Perm.Basic

/-! What threads get of a shared queue. Each item is taken once, in its order,
and no thread sleeps while there is something that nobody has been woken for. -/

set_option autoImplicit false

namespace Firestr.Util

open Firestr.Library.Monitor Firestr.Library.Monitor.Sleepers Firestr.Library.Runs

variable {Thread Item : Type} [DecidableEq Thread]

theorem Queue.waitPass_cases {s s' : Queue Item} {pass : Pass Item}
    (passed : s.waitPass = .ok (pass, s')) :
    (pass = .sleep ∧ s.q = [] ∧ s.done = false ∧ s' = s) ∨
    (pass = .gaveUp ∧ s.done = true ∧ s' = s) ∨
    (∃ v q, pass = .took v ∧ s.q = v :: q ∧ s.done = false ∧ s' = { s with q := q }) := by
  by_cases ended : s.done = true
  · rw [s.waitPass_of_done ended] at passed
    cases passed
    exact .inr (.inl ⟨rfl, ended, rfl⟩)
  · have open? : s.done = false := by simpa using ended
    cases first : s.q with
    | nil =>
        rw [s.waitPass_nil open? first] at passed
        cases passed
        exact .inl ⟨rfl, rfl, open?, rfl⟩
    | cons v q =>
        rw [s.waitPass_cons v open? first] at passed
        cases passed
        exact .inr (.inr ⟨v, q, rfl, rfl, open?, rfl⟩)

def Pass.item : Pass Item → Option Item
  | .took v => some v
  | .sleep | .gaveUp => none

theorem Queue.waitPass_taken {s s' : Queue Item} {pass : Pass Item}
    (passed : s.waitPass = .ok (pass, s')) :
    s.q = pass.item.toList ++ s'.q ∧ s'.done = s.done := by
  obtain ⟨rfl, -, -, rfl⟩ | ⟨rfl, -, rfl⟩ | ⟨v, q, rfl, first, -, rfl⟩ := s.waitPass_cases passed
  · exact ⟨rfl, rfl⟩
  · exact ⟨rfl, rfl⟩
  · exact ⟨first, rfl⟩

section Order

variable {s s' : SharedQueue Thread Item} {event : QueueEvent Thread Item}
  {events : List (QueueEvent Thread Item)}

theorem QueueStep.order (step : QueueStep s event s') (back : event.atFront = false) :
    s.queue.q ++ event.added.toList = event.taken.toList ++ s'.queue.q := by
  cases step with
  | push pushed _ | emplacePush pushed _ =>
      simp only [Queue.push_ok, Queue.emplacePush_ok] at pushed
      cases pushed
      rfl
  | emplaceFront => cases back
  | pop popped => simpa [QueueEvent.added, QueueEvent.taken] using (Queue.pop_ok popped).1
  | popFront popped =>
      simpa [QueueEvent.added, QueueEvent.taken] using (Queue.popFront_ok popped).1
  | @enter t pass queue _ _ passed | @resume t pass queue _ passed =>
      have taken := (Queue.waitPass_taken passed).1
      cases pass <;> simpa [QueueEvent.added, QueueEvent.taken, Pass.item] using taken
  | wake | done => simp [QueueEvent.added, QueueEvent.taken, Queue.setDone]

theorem QueueStep.perm (step : QueueStep s event s') :
    (s.queue.q ++ event.added.toList).Perm (event.taken.toList ++ s'.queue.q) := by
  by_cases front : event.atFront = true
  · cases step with
    | @emplaceFront v queue _ pushed _ =>
        simp only [Queue.emplaceFront_ok] at pushed
        cases pushed
        exact List.perm_append_singleton v _
    | _ => cases front
  · exact .of_eq (step.order (by simpa using front))

theorem filterMap_append_one {Label : Type} (f : Label → Option Item) (labels : List Label)
    (label : Label) : (labels ++ [label]).filterMap f = labels.filterMap f ++ (f label).toList := by
  rw [List.filterMap_append]
  cases found : f label <;> simp [found]

/-- Three threads wait. One has taken an item, and another one has been woken for the next. -/
def handed : SharedQueue Nat Nat :=
  { queue := { q := [8] }, sleepers := { waiting := [2], woken := [1] } }

def handedEvents : List (QueueEvent Nat Nat) :=
  [.enter 0 .sleep, .enter 1 .sleep, .enter 2 .sleep, .push 7, .resume 0 (.took 7), .push 8]

theorem handed_run : SharedQueueRun handedEvents handed := by
  have first : SharedQueueRun [QueueEvent.enter 0 .sleep]
      ({ sleepers := { waiting := [0] } } : SharedQueue Nat Nat) :=
    .single rfl (.enter (by simp) (by simp) rfl)
  have asleep : SharedQueueRun [QueueEvent.enter 0 .sleep, .enter 1 .sleep, .enter 2 .sleep]
      ({ sleepers := { waiting := [2, 1, 0] } } : SharedQueue Nat Nat) :=
    (first.step (.enter (by decide) (by decide) rfl)).step (.enter (by decide) (by decide) rfl)
  have called : NotifyOne { waiting := [2, 1, 0] } { waiting := [2, 1], woken := [0] } :=
    NotifyOne.wake (t := 0) (by decide)
  have next : NotifyOne { waiting := [2, 1] } { waiting := [2], woken := [1] } :=
    NotifyOne.wake (t := 1) (by decide)
  exact ((asleep.step (.push rfl called)).step (.resume (by decide) rfl)).step (.push rfl next)

theorem perm_of_run (run : SharedQueueRun events s) :
    (events.filterMap QueueEvent.added).Perm
      (events.filterMap QueueEvent.taken ++ s.queue.q) := by
  induction run with
  | start started => simp [started]
  | step _ stepped ih =>
      rw [filterMap_append_one, filterMap_append_one]
      refine (ih.append_right _).trans ?_
      rw [List.append_assoc, List.append_assoc]
      exact stepped.perm.append_left _

theorem order_of_run (run : SharedQueueRun events s)
    (back : ∀ event ∈ events, event.atFront = false) :
    events.filterMap QueueEvent.added = events.filterMap QueueEvent.taken ++ s.queue.q := by
  induction run with
  | start started => simp [started]
  | @step events _ _ event _ stepped ih =>
      have before := ih fun event member => back event (List.mem_append_left _ member)
      have turn := stepped.order (back event (by simp))
      rw [filterMap_append_one, filterMap_append_one, before, List.append_assoc, turn,
        List.append_assoc]

/-- Every item that is put in the queue is taken once or is still in it, and it is taken in its
turn when none is put in front. -/
theorem queue_exactly_once (run : SharedQueueRun events s) :
    (events.filterMap QueueEvent.added).Perm (events.filterMap QueueEvent.taken ++ s.queue.q) ∧
      ((∀ event ∈ events, event.atFront = false) →
        events.filterMap QueueEvent.added = events.filterMap QueueEvent.taken ++ s.queue.q) :=
  ⟨perm_of_run run, order_of_run run⟩

theorem queue_exactly_once_handed :
    handedEvents.filterMap QueueEvent.added = [7, 8] ∧
      handedEvents.filterMap QueueEvent.taken = [7] ∧
      (handedEvents.filterMap QueueEvent.added).Perm
        (handedEvents.filterMap QueueEvent.taken ++ handed.queue.q) ∧
      handedEvents.filterMap QueueEvent.added =
        handedEvents.filterMap QueueEvent.taken ++ handed.queue.q := by
  obtain ⟨once, order⟩ := queue_exactly_once handed_run
  exact ⟨rfl, rfl, once, order (by decide)⟩

end Order

section Wakeups

variable {s s' : SharedQueue Thread Item} {event : QueueEvent Thread Item}
  {events : List (QueueEvent Thread Item)}

/-- Who sleeps has something to wait for, and somebody to be woken by. -/
def SharedQueue.Awake (s : SharedQueue Thread Item) : Prop :=
  s.sleepers.Served s.queue.q.length ∧ (s.queue.done = true → s.sleepers.waiting = [])

theorem NotifyOne.nobody_left {sleepers sleepers' : Sleepers Thread}
    (notified : NotifyOne sleepers sleepers') (nobody : sleepers.waiting = []) :
    sleepers'.waiting = [] := by
  cases notified with
  | nobody => exact nobody
  | wake waiting => simp [nobody] at waiting

private theorem Awake.grow (awake : s.Awake) {q : List Item}
    (length : q.length = s.queue.q.length + 1) {sleepers : Sleepers Thread}
    (notified : NotifyOne s.sleepers sleepers) : SharedQueue.Awake
      { queue := { s.queue with q := q }, sleepers := sleepers } := by
  refine ⟨?_, fun ended => NotifyOne.nobody_left notified (awake.2 ended)⟩
  have served := awake.1.notifyOne notified
  rwa [← length] at served

omit [DecidableEq Thread] in
private theorem Awake.shrink (awake : s.Awake) {queue : Queue Item} {v : Option Item}
    (taken : s.queue.q = v.toList ++ queue.q ∧ queue.done = s.queue.done) :
    SharedQueue.Awake { s with queue := queue } := by
  refine ⟨awake.1.mono ?_, fun ended => awake.2 (taken.2 ▸ ended)⟩
  rw [taken.1, List.length_append]
  exact Nat.le_add_left ..

theorem QueueStep.awake (step : QueueStep s event s') (awake : s.Awake) : s'.Awake := by
  cases step with
  | push pushed notified | emplacePush pushed notified =>
      simp only [Queue.push_ok, Queue.emplacePush_ok] at pushed
      cases pushed
      exact Awake.grow awake (by simp) notified
  | emplaceFront pushed notified =>
      simp only [Queue.emplaceFront_ok] at pushed
      cases pushed
      exact Awake.grow awake (by simp) notified
  | pop popped => exact Awake.shrink awake (Queue.pop_ok popped)
  | @popFront v queue popped =>
      exact Awake.shrink (v := some v) awake (Queue.popFront_ok popped)
  | @enter t pass queue _ _ passed =>
      obtain ⟨rfl, nothing, open?, rfl⟩ | ⟨rfl, -, rfl⟩ | ⟨v, q, rfl, first, open?, rfl⟩ :=
        Queue.waitPass_cases passed
      · refine ⟨?_, fun ended => ?_⟩
        · rw [nothing]
          exact Served.sleep
        · rw [open?] at ended
          cases ended
      · exact awake
      · exact Awake.shrink (v := some v) awake ⟨first, rfl⟩
  | @wake t waiting =>
      refine ⟨awake.1.wake waiting, fun ended => ?_⟩
      rw [awake.2 ended] at waiting
      cases waiting
  | @resume t pass queue woken passed =>
      obtain ⟨rfl, nothing, open?, rfl⟩ | ⟨rfl, ended, rfl⟩ | ⟨v, q, rfl, first, open?, rfl⟩ :=
        Queue.waitPass_cases passed
      · refine ⟨?_, fun ended => ?_⟩
        · rw [nothing]
          exact Served.sleep
        · rw [open?] at ended
          cases ended
      · exact ⟨.inl (awake.2 ended), awake.2⟩
      · have served := awake.1
        rw [first, List.length_cons] at served
        refine ⟨served.resume woken, fun ended => ?_⟩
        rw [open?] at ended
        cases ended
  | done => exact ⟨Served.notifyAll, fun _ => rfl⟩

theorem awake_of_run (run : SharedQueueRun events s) : s.Awake := by
  refine run.invariant (fun _ s => s.Awake) ?_ fun _ _ _ _ _ awake step => step.awake awake
  rintro s rfl
  exact ⟨Served.start, fun _ => rfl⟩

/-- No wakeup is lost. While a thread sleeps there are as many woken threads as items, and who is
woken takes the first one. After `done` no thread sleeps, and whoever waits gives up. -/
theorem no_lost_wakeup (run : SharedQueueRun events s) :
    (s.queue.done = false → s.sleepers.waiting ≠ [] →
      s.queue.q.length ≤ s.sleepers.woken.length) ∧
    (∀ v q, s.queue.done = false → s.queue.q = v :: q → ∀ t ∈ s.sleepers.woken,
      ∃ s', QueueStep s (.resume t (.took v)) s' ∧ s'.queue.q = q) ∧
    (s.queue.done = true → s.sleepers.waiting = [] ∧
      ∀ t pass s', QueueStep s (.enter t pass) s' ∨ QueueStep s (.resume t pass) s' →
        pass = .gaveUp ∧ s'.queue = s.queue ∧ s'.sleepers.waiting = []) := by
  have awake := awake_of_run run
  refine ⟨fun _ waiting => awake.1.resolve_left waiting, ?_, fun ended => ⟨awake.2 ended, ?_⟩⟩
  · intro v q open? first t woken
    exact ⟨_, .resume woken (s.queue.waitPass_cons v open? first), rfl⟩
  · rintro t pass s' (step | step)
    · cases step with
      | enter _ _ passed =>
          rw [s.queue.waitPass_of_done ended] at passed
          cases passed
          exact ⟨rfl, rfl, awake.2 ended⟩
    · cases step with
      | resume _ passed =>
          rw [s.queue.waitPass_of_done ended] at passed
          cases passed
          exact ⟨rfl, rfl, awake.2 ended⟩

theorem no_lost_wakeup_handed :
    (handed.queue.done = false → handed.sleepers.waiting ≠ [] →
      handed.queue.q.length ≤ handed.sleepers.woken.length) ∧
    (∀ v q, handed.queue.done = false → handed.queue.q = v :: q → ∀ t ∈ handed.sleepers.woken,
      ∃ s', QueueStep handed (.resume t (.took v)) s' ∧ s'.queue.q = q) ∧
    (handed.queue.done = true → handed.sleepers.waiting = [] ∧
      ∀ t pass s', QueueStep handed (.enter t pass) s' ∨ QueueStep handed (.resume t pass) s' →
        pass = .gaveUp ∧ s'.queue = handed.queue ∧ s'.sleepers.waiting = []) :=
  no_lost_wakeup handed_run

end Wakeups

end Firestr.Util
