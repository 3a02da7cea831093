import Mathlib.Data.List.Basic
import Mathlib.Tactic.Common

/-! Condition variables. A thread that finds nothing to do sleeps, and whoever
makes something to do wakes one that sleeps. A thread may also wake by itself. -/

set_option autoImplicit false

namespace Firestr.Library.Monitor

/-- The threads that sleep, and those that have been woken and have not got the mutex yet. -/
structure Sleepers (Thread : Type) where
  waiting : List Thread := []
  woken : List Thread := []
  deriving Repr

variable {Thread : Type}

namespace Sleepers

section Served

variable {s : Sleepers Thread} {t : Thread} {demand : Nat}

def sleep (s : Sleepers Thread) (t : Thread) : Sleepers Thread :=
  { s with waiting := t :: s.waiting }

def notifyAll (s : Sleepers Thread) : Sleepers Thread :=
  { waiting := [], woken := s.waiting ++ s.woken }

/-- Where a thread sleeps, at least that many threads have been woken. -/
def Served (demand : Nat) (s : Sleepers Thread) : Prop := s.waiting = [] ∨ demand ≤ s.woken.length

theorem Served.start : ({} : Sleepers Thread).Served demand := .inl rfl

theorem Served.mono {less : Nat} (served : s.Served demand) (le : less ≤ demand) :
    s.Served less := served.imp_right (Nat.le_trans le)

theorem Served.notifyAll : s.notifyAll.Served demand := .inl rfl

/-- A thread that sleeps has seen that there is nothing to do. -/
theorem Served.sleep : (s.sleep t).Served 0 := .inr (Nat.zero_le _)

end Served

section Notify

variable [DecidableEq Thread]

def wake (s : Sleepers Thread) (t : Thread) : Sleepers Thread :=
  { waiting := s.waiting.erase t, woken := t :: s.woken }

/-- A woken thread gets the mutex. -/
def resume (s : Sleepers Thread) (t : Thread) : Sleepers Thread :=
  { s with woken := s.woken.erase t }

/-- Any one of the threads that sleep is woken, if there is one. -/
inductive NotifyOne (s : Sleepers Thread) : Sleepers Thread → Prop where
  | nobody : s.waiting = [] → NotifyOne s s
  | wake {t : Thread} : t ∈ s.waiting → NotifyOne s (s.wake t)

variable {s s' : Sleepers Thread} {t : Thread} {demand : Nat}

theorem Served.notifyOne (served : s.Served demand) (notified : NotifyOne s s') :
    s'.Served (demand + 1) := by
  cases notified with
  | nobody nobody => exact .inl nobody
  | @wake t waiting =>
      rcases served with nobody | enough
      · rw [nobody] at waiting
        cases waiting
      · exact .inr (by simpa [Sleepers.wake] using enough)

theorem Served.wake (served : s.Served demand) (waiting : t ∈ s.waiting) :
    (s.wake t).Served demand :=
  (served.notifyOne (.wake waiting)).mono (Nat.le_succ demand)

/-- A woken thread does one of the things there are to do. -/
theorem Served.resume (served : s.Served (demand + 1)) (woken : t ∈ s.woken) :
    (s.resume t).Served demand := by
  refine served.imp_right fun enough => ?_
  rw [Sleepers.resume, List.length_erase_of_mem woken]
  omega

end Notify

end Sleepers

end Firestr.Library.Monitor
