/-
**`while` loops.**

* `Loop` — a condition and a body that goes on or breaks; `Loop.run` runs it for at most so many
  passes.
* `Loop.Reaches` — the states it comes by, at the head of the loop.
* `Loop.Reaches.invariant` — what every pass keeps holds wherever the loop comes by.
* `Loop.run_eq` — **a loop whose passes keep an invariant and decrease a variant ends**, with what
  the invariant promises, however many passes it is allowed beyond that.
-/

import Mathlib.Logic.Basic

namespace Wookie.Library

variable {σ : Type}

/-- Where a pass through the body leads. -/
inductive Flow (σ : Type)
  /-- Back to the condition. -/
  | next (state : σ)
  /-- `break` -/
  | stop (state : σ)

/-- The state after the pass. -/
def Flow.state : Flow σ → σ
  | .next state => state
  | .stop state => state

/-- `while (cond) body`. -/
structure Loop (σ : Type) where
  cond : σ → Bool
  body : σ → Flow σ

namespace Loop

/-- The loop, as long as the fuel lasts. -/
def run (loop : Loop σ) : Nat → σ → Option σ
  | 0, _ => none
  | fuel + 1, state =>
    if loop.cond state then
      match loop.body state with
      | .next after => run loop fuel after
      | .stop after => some after
    else some state

/-- The loop comes by a state. -/
inductive Reaches (loop : Loop σ) (start : σ) : σ → Prop
  | refl : Reaches loop start start
  | step {state after : σ} : Reaches loop start state → loop.cond state = true →
      loop.body state = .next after → Reaches loop start after

variable {loop : Loop σ} {start : σ}

/-- **What every pass keeps** holds wherever the loop comes by. -/
theorem Reaches.invariant {state : σ} (holds : σ → Prop) (reached : loop.Reaches start state)
    (initial : holds start)
    (keeps : ∀ s after, holds s → loop.cond s = true → loop.body s = .next after → holds after) :
    holds state := by
  induction reached with
  | refl => exact initial
  | step _ enters next ih => exact keeps _ _ ih enters next

/-- A pass: the invariant is kept and the variant decreases, or the loop ends with the result. -/
def Pass (loop : Loop σ) (holds : σ → Prop) (variant : σ → Nat) (result : σ → Prop) (s : σ) :
    Prop :=
  match loop.body s with
  | .next after => holds after ∧ variant after < variant s
  | .stop after => result after

/-- **The loop ends** with the result. -/
theorem run_eq (holds : σ → Prop) (variant : σ → Nat) {result : σ → Prop}
    (pass : ∀ s, holds s → loop.cond s = true → loop.Pass holds variant result s)
    (ends : ∀ s, holds s → loop.cond s = false → result s) (initial : holds start) {fuel : Nat}
    (enough : variant start < fuel) : ∃ after, loop.run fuel start = some after ∧ result after := by
  induction fuel generalizing start with
  | zero => exact absurd enough (Nat.not_lt_zero _)
  | succ fuel ih =>
    rw [run]
    cases entered : loop.cond start with
    | false => exact ⟨start, rfl, ends start initial entered⟩
    | true =>
      have passed := pass start initial entered
      unfold Pass at passed
      rw [if_pos rfl]
      cases flow : loop.body start with
      | next after =>
        rw [flow] at passed
        exact ih passed.1 (by have less := passed.2; omega)
      | stop after =>
        rw [flow] at passed
        exact ⟨after, rfl, passed⟩

end Loop

end Wookie.Library
