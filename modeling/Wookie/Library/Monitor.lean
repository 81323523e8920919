/-
**Sleeping on a condition variable.**

A thread locks a mutex, waits on a condition variable and gives the mutex back:
`std::unique_lock<std::mutex> guard(lock); cond.wait(guard);`. The wait releases the mutex, and has
it again when it returns; between the lock and the sleep nobody can wake the thread.

* `Sleep` — where the thread is; `Sleep.step` — its next step, with the holder of the mutex.
* `Sleep.step_hoping` — only a thread that was about to sleep is asleep after a step.
* `Sleep.step_holding` — who holds the mutex is about to release it.
* `Sleep.step_lock`, `Sleep.step_wait` — a thread that gets the mutex falls asleep.
-/

import Mathlib.Logic.Basic

namespace Wookie.Library

variable {ω : Type}

/-- Where a thread is that sleeps on a condition variable. -/
inductive Sleep
  /-- About to lock the mutex. -/
  | lock
  /-- About to release the mutex and to sleep. -/
  | wait
  | asleep
  /-- Woken up, and about to lock the mutex again. -/
  | woken
  /-- About to release the mutex for good. -/
  | unlock
  deriving DecidableEq

/-- The next step of the thread: where it is then, unless it is done, and who holds the mutex.
`none` if it cannot take one. -/
def Sleep.step (who : ω) : Sleep → Option ω → Option (Option Sleep × Option ω)
  | .lock, none => some (some .wait, some who)
  | .wait, _ => some (some .asleep, none)
  | .woken, none => some (some .unlock, some who)
  | .unlock, _ => some (none, none)
  | _, _ => none

/-- On the way to sleep: a notification is lost on the thread. -/
def Sleep.Window (sleep : Sleep) : Prop := sleep = .lock ∨ sleep = .wait

/-- Asleep, or on the way. -/
def Sleep.Hoping (sleep : Sleep) : Prop := sleep.Window ∨ sleep = .asleep

/-- With the mutex. -/
def Sleep.Holding (sleep : Sleep) : Prop := sleep = .wait ∨ sleep = .unlock

theorem Sleep.not_window_asleep : ¬ Sleep.asleep.Window := by simp [Window]

theorem Sleep.not_hoping_woken : ¬ Sleep.woken.Hoping := by simp [Hoping, Window]

theorem Sleep.not_hoping_unlock : ¬ Sleep.unlock.Hoping := by simp [Hoping, Window]

theorem Sleep.not_holding_lock : ¬ Sleep.lock.Holding := by simp [Holding]

theorem Sleep.not_holding_asleep : ¬ Sleep.asleep.Holding := by simp [Holding]

variable {who : ω} {sleep next : Sleep} {holder holder' : Option ω}

/-- **Only a thread that was about to sleep** is asleep after a step. -/
theorem Sleep.step_hoping (stepped : sleep.step who holder = some (some next, holder'))
    (hoping : next.Hoping) : sleep.Hoping := by
  cases sleep with
  | lock => exact .inl (.inl rfl)
  | wait => exact .inl (.inr rfl)
  | asleep => cases holder <;> cases stepped
  | woken =>
    cases holder with
    | none =>
      cases stepped
      exact absurd hoping Sleep.not_hoping_unlock
    | some other => cases stepped
  | unlock => cases holder <;> cases stepped

/-- **The mutex is held** by a thread that is about to release it. -/
theorem Sleep.step_holding {next : Option Sleep}
    (stepped : sleep.step who holder = some (next, holder')) (held : holder' ≠ none) :
    ∃ after ∈ next, after.Holding := by
  cases sleep with
  | lock =>
    cases holder with
    | none =>
      cases stepped
      exact ⟨.wait, rfl, .inl rfl⟩
    | some other => cases stepped
  | wait =>
    cases holder <;> cases stepped <;> exact absurd rfl held
  | asleep => cases holder <;> cases stepped
  | woken =>
    cases holder with
    | none =>
      cases stepped
      exact ⟨.unlock, rfl, .inr rfl⟩
    | some other => cases stepped
  | unlock =>
    cases holder <;> cases stepped <;> exact absurd rfl held

theorem Sleep.step_lock (who : ω) : Sleep.lock.step who none = some (some .wait, some who) := rfl

theorem Sleep.step_wait (who : ω) (holder : Option ω) :
    Sleep.wait.step who holder = some (some .asleep, none) := by
  cases holder <;> rfl

end Wookie.Library
