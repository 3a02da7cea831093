import Firestr.Library.Monitor
import Firestr.Library.Runs
import Firestr.Util.Dbc

/-! The queue that threads hand each other things through. Its mutex makes one
step of each function, up to where a `pop` sleeps on the condition variable. -/

set_option autoImplicit false

namespace Firestr.Util

open Firestr.Library.Monitor Firestr.Library.Monitor.Sleepers Firestr.Library.Runs

structure Queue (Item : Type) where
  q : List Item := []
  done : Bool := false
  deriving DecidableEq, Repr

/-- What a waiting `pop` does from where it has the mutex up to where it gives it back. -/
inductive Pass (Item : Type) where
  | sleep
  | gaveUp
  | took (v : Item)
  deriving DecidableEq, Repr

variable {Thread Item : Type}

namespace Queue

/-- What is the same in `push`, `emplace_push` and `emplace_front`. -/
def grow (s : Queue Item) (q : List Item) : Outcome (Queue Item) := do
  ensure (decide (q.length > 0)) "_q.size() > 0"
  pure { s with q := q }

def push (s : Queue Item) (v : Item) : Outcome (Queue Item) := s.grow (s.q ++ [v])

def emplacePush (s : Queue Item) (v : Item) : Outcome (Queue Item) := s.grow (s.q ++ [v])

def emplaceFront (s : Queue Item) (v : Item) : Outcome (Queue Item) := s.grow (v :: s.q)

def take (s : Queue Item) : Outcome (Item × Queue Item) :=
  match s.q with
  | [] => .error .dangling
  | v :: q => pure (v, { s with q := q })

/-- One pass of `pop` or `pop_front` with `wait`. -/
def waitPass (s : Queue Item) : Outcome (Pass Item × Queue Item) :=
  if s.q.isEmpty then pure (if s.done then .gaveUp else .sleep, s)
  else if s.done then pure (.gaveUp, s)
  else do
    require (!s.q.isEmpty) "!(_q.empty())"
    let (v, s) ← s.take
    pure (.took v, s)

/-- `pop` without `wait`. -/
def pop (s : Queue Item) : Outcome (Option Item × Queue Item) :=
  if s.q.isEmpty then pure (none, s)
  else do
    let (v, s) ← s.take
    pure (some v, s)

/-- `pop_front` without `wait`, with what it drops. -/
def popFront (s : Queue Item) : Outcome (Item × Queue Item) := do
  require (!s.q.isEmpty) "!(_q.empty())"
  s.take

def setDone (s : Queue Item) : Queue Item := { s with done := true }

section Spec

variable (s : Queue Item) (v : Item)

@[simp] theorem push_ok : s.push v = .ok { s with q := s.q ++ [v] } := by simp [push, grow]

@[simp] theorem emplacePush_ok : s.emplacePush v = .ok { s with q := s.q ++ [v] } := by
  simp [emplacePush, grow]

@[simp] theorem emplaceFront_ok : s.emplaceFront v = .ok { s with q := v :: s.q } := by
  simp [emplaceFront, grow]

theorem waitPass_of_done (ended : s.done = true) : s.waitPass = .ok (.gaveUp, s) := by
  unfold waitPass
  rw [if_pos ended, if_pos ended]
  split <;> rfl

theorem waitPass_nil (open? : s.done = false) (nothing : s.q = []) :
    s.waitPass = .ok (.sleep, s) := by
  simp [waitPass, open?, nothing]

theorem waitPass_cons (open? : s.done = false) {q : List Item} (first : s.q = v :: q) :
    s.waitPass = .ok (.took v, { s with q := q }) := by
  simp [waitPass, take, open?, first]

theorem take_ok {s s' : Queue Item} {v : Item} (taken : s.take = .ok (v, s')) :
    s.q = v :: s'.q ∧ s'.done = s.done := by
  unfold take at taken
  split at taken
  · cases taken
  · rename_i first
    cases taken
    exact ⟨first, rfl⟩

theorem pop_ok {s s' : Queue Item} {result : Option Item} (popped : s.pop = .ok (result, s')) :
    s.q = result.toList ++ s'.q ∧ s'.done = s.done := by
  unfold pop at popped
  split at popped
  · cases popped
    exact ⟨rfl, rfl⟩
  · obtain ⟨⟨v, s₁⟩, taken, popped⟩ := bind_ok popped
    cases popped
    exact take_ok taken

theorem popFront_ok {s s' : Queue Item} {v : Item} (popped : s.popFront = .ok (v, s')) :
    s.q = v :: s'.q ∧ s'.done = s.done := by
  obtain ⟨_, -, taken⟩ := bind_ok popped
  exact take_ok taken

end Spec

end Queue

/-- A queue and the threads that sleep in it. -/
structure SharedQueue (Thread Item : Type) where
  queue : Queue Item := {}
  sleepers : Sleepers Thread := {}

inductive QueueEvent (Thread Item : Type) where
  | push (v : Item)
  | emplaceFront (v : Item)
  | pop (result : Option Item)
  | popFront (v : Item)
  | enter (t : Thread) (pass : Pass Item)
  | wake (t : Thread)
  | resume (t : Thread) (pass : Pass Item)
  | done

/-- After a pass a thread sleeps, or is out of the queue. -/
def Pass.settle (t : Thread) (pass : Pass Item) (sleepers : Sleepers Thread) : Sleepers Thread :=
  match pass with
  | .sleep => sleepers.sleep t
  | .gaveUp | .took _ => sleepers

variable [DecidableEq Thread]

inductive QueueStep (s : SharedQueue Thread Item) :
    QueueEvent Thread Item → SharedQueue Thread Item → Prop where
  | push {v : Item} {queue : Queue Item} {sleepers : Sleepers Thread} :
      s.queue.push v = .ok queue → NotifyOne s.sleepers sleepers →
      QueueStep s (.push v) { queue := queue, sleepers := sleepers }
  | emplacePush {v : Item} {queue : Queue Item} {sleepers : Sleepers Thread} :
      s.queue.emplacePush v = .ok queue → NotifyOne s.sleepers sleepers →
      QueueStep s (.push v) { queue := queue, sleepers := sleepers }
  | emplaceFront {v : Item} {queue : Queue Item} {sleepers : Sleepers Thread} :
      s.queue.emplaceFront v = .ok queue → NotifyOne s.sleepers sleepers →
      QueueStep s (.emplaceFront v) { queue := queue, sleepers := sleepers }
  | pop {result : Option Item} {queue : Queue Item} :
      s.queue.pop = .ok (result, queue) → QueueStep s (.pop result) { s with queue := queue }
  | popFront {v : Item} {queue : Queue Item} :
      s.queue.popFront = .ok (v, queue) → QueueStep s (.popFront v) { s with queue := queue }
  | enter {t : Thread} {pass : Pass Item} {queue : Queue Item} :
      t ∉ s.sleepers.waiting → t ∉ s.sleepers.woken → s.queue.waitPass = .ok (pass, queue) →
      QueueStep s (.enter t pass) { queue := queue, sleepers := pass.settle t s.sleepers }
  | wake {t : Thread} : t ∈ s.sleepers.waiting →
      QueueStep s (.wake t) { s with sleepers := s.sleepers.wake t }
  | resume {t : Thread} {pass : Pass Item} {queue : Queue Item} :
      t ∈ s.sleepers.woken → s.queue.waitPass = .ok (pass, queue) →
      QueueStep s (.resume t pass)
        { queue := queue, sleepers := pass.settle t (s.sleepers.resume t) }
  | done : QueueStep s .done { queue := s.queue.setDone, sleepers := s.sleepers.notifyAll }

abbrev SharedQueueRun : List (QueueEvent Thread Item) → SharedQueue Thread Item → Prop :=
  Run (fun s => s = {}) QueueStep

namespace QueueEvent

def added : QueueEvent Thread Item → Option Item
  | .push v | .emplaceFront v => some v
  | _ => none

def taken : QueueEvent Thread Item → Option Item
  | .pop result => result
  | .popFront v | .enter _ (.took v) | .resume _ (.took v) => some v
  | _ => none

def atFront : QueueEvent Thread Item → Bool
  | .emplaceFront _ => true
  | _ => false

end QueueEvent

end Firestr.Util
