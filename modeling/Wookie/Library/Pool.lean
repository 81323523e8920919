/-
**Runs, and pools of programs interleaved over one shared state.**

* `Run step meets start labels state` — the labels lead from `start` to `state`, and every step
  meets `meets`, a condition on the state before the step. `Run.history` is the one induction
  behind every safety result, `Run.invariant` its form without the labels, `Run.simulated` its form
  over a machine that simulates the steps; `Run.of_exec` turns an evaluated run into a `Run`.
* `Pool` — threads of a program, interleaved question by question over a shared state.
  `Pool.stepThread_spec` says all a thread's step can do; `Pool.Keeps` says that every thread keeps
  to a protocol from a phase of its own, and `Keeps.step` / `Keeps.spawn` preserve it; `Pool.Adhere`
  is the same with a condition on the phases threads end in.
* `Pool.runs_alone` — a thread that no question blocks can be run to its end by itself.
-/

import Mathlib.Logic.Function.Basic
import Wookie.Library.Program

namespace Wookie.Library

/-! ### Runs -/

section Run

variable {σ ℓ : Type}

/-- The labels lead from `start` to the state, every step meeting `meets`. -/
inductive Run (step : σ → ℓ → Option σ) (meets : σ → ℓ → Prop) (start : σ) : List ℓ → σ → Prop
  | nil : Run step meets start [] start
  | snoc {labels : List ℓ} {state after : σ} {label : ℓ} : Run step meets start labels state →
      meets state label → step state label = some after →
      Run step meets start (labels ++ [label]) after

/-- No condition on the steps. -/
def AnyStep (_ : σ) (_ : ℓ) : Prop := True

variable {step : σ → ℓ → Option σ} {meets : σ → ℓ → Prop} {start state : σ} {labels : List ℓ}

/-- **An invariant of the steps taken and the state reached.** -/
theorem Run.history (holds : List ℓ → σ → Prop) (run : Run step meets start labels state)
    (initial : holds [] start)
    (keeps : ∀ before s label s', holds before s → meets s label → step s label = some s' →
      holds (before ++ [label]) s') :
    holds labels state := by
  induction run with
  | nil => exact initial
  | snoc _ met stepped ih => exact keeps _ _ _ _ ih met stepped

/-- **An invariant of the steps holds in every state reached.** -/
theorem Run.invariant (holds : σ → Prop) (run : Run step meets start labels state)
    (initial : holds start)
    (keeps : ∀ s label s', holds s → meets s label → step s label = some s' → holds s') :
    holds state :=
  run.history (fun _ => holds) initial fun _ s label s' => keeps s label s'

/-- **A machine that simulates the steps** has a state related to the one reached, and what its
moves keep holds there. -/
theorem Run.simulated {τ : Type} {related : σ → τ → Prop} {move : ℓ → τ → τ → Prop} {first : τ}
    (holds : τ → Prop) (run : Run step meets start labels state) (starts : related start first)
    (simulates : ∀ s t label s', related s t → step s label = some s' →
      ∃ t', related s' t' ∧ move label t t')
    (initial : holds first)
    (keeps : ∀ s t label t', related s t → meets s label → holds t → move label t t' → holds t') :
    ∃ t, related state t ∧ holds t := by
  induction run with
  | nil => exact ⟨first, starts, initial⟩
  | snoc _ met stepped ih =>
    obtain ⟨t, tracks, held⟩ := ih
    obtain ⟨t', still, moved⟩ := simulates _ t _ _ tracks stepped
    exact ⟨t', still, keeps _ t _ t' tracks met held moved⟩

/-- A run that meets a condition meets every weaker one. -/
theorem Run.mono {weaker : σ → ℓ → Prop} (run : Run step meets start labels state)
    (implies : ∀ s label, meets s label → weaker s label) :
    Run step weaker start labels state := by
  induction run with
  | nil => exact .nil
  | snoc _ met stepped ih => exact .snoc ih (implies _ _ met) stepped

/-- A run all of whose labels are allowed. -/
theorem Run.allowed {allows : ℓ → Prop} (run : Run step meets start labels state)
    (all : ∀ label ∈ labels, allows label) :
    Run step (fun s label => meets s label ∧ allows label) start labels state := by
  induction run with
  | nil => exact .nil
  | snoc _ met stepped ih =>
    exact .snoc (ih fun label member => all label (List.mem_append_left _ member))
      ⟨met, all _ (List.mem_append_right _ (List.mem_singleton.mpr rfl))⟩ stepped

/-- A run, with what holds in all states reached. -/
theorem Run.along (holds : σ → Prop) (run : Run step meets start labels state)
    (reached : ∀ labels state, Run step meets start labels state → holds state) :
    Run step (fun s label => meets s label ∧ holds s) start labels state := by
  induction run with
  | nil => exact .nil
  | snoc before met stepped ih => exact .snoc ih ⟨met, reached _ _ before⟩ stepped

/-- The same run of a machine with more labels. -/
theorem Run.relabel {κ : Type} {other : σ → κ → Option σ} {allows : σ → κ → Prop} (f : ℓ → κ)
    (same : ∀ s label, other s (f label) = step s label)
    (implies : ∀ s label, meets s label → allows s (f label))
    (run : Run step meets start labels state) :
    Run other allows start (labels.map f) state := by
  induction run with
  | nil => exact .nil
  | snoc _ met stepped ih =>
    rw [List.map_append]
    exact .snoc ih (implies _ _ met) ((same _ _).trans stepped)

/-- A run, and one from where it ends. -/
theorem Run.trans {middle : σ} {more : List ℓ} (run : Run step meets start labels middle)
    (later : Run step meets middle more state) : Run step meets start (labels ++ more) state := by
  induction later with
  | nil => rwa [List.append_nil]
  | snoc _ met stepped ih =>
    rw [← List.append_assoc]
    exact ih.snoc met stepped

/-- The state after the labels, if every step is enabled and passes `check`. -/
def exec (step : σ → ℓ → Option σ) (check : σ → ℓ → Bool) (start : σ) : List ℓ → Option σ
  | [] => some start
  | label :: rest =>
    if check start label then (step start label).bind fun after => exec step check after rest
    else none

theorem Run.cons_run {label : ℓ} {middle : σ} (met : meets start label)
    (stepped : step start label = some middle) (run : Run step meets middle labels state) :
    Run step meets start (label :: labels) state := by
  induction run with
  | nil =>
    have first : Run step meets start ([] ++ [label]) middle := .snoc .nil met stepped
    exact first
  | snoc _ met' stepped' ih =>
    rw [← List.cons_append]
    exact ih.snoc met' stepped'

/-- **An evaluated run is a run.** -/
theorem Run.of_exec {check : σ → ℓ → Bool} (sound : ∀ s label, check s label = true → meets s label)
    (labels : List ℓ) : ∀ {start : σ}, exec step check start labels = some state →
      Run step meets start labels state := by
  induction labels with
  | nil =>
    intro start same
    cases same
    exact .nil
  | cons label rest ih =>
    intro start same
    simp only [exec] at same
    split at same
    · rename_i checked
      obtain ⟨middle, stepped, after⟩ := Option.bind_eq_some_iff.mp same
      exact Run.cons_run (sound _ _ checked) stepped (ih after)
    · cases same

/-- The state an evaluated run ends in. -/
def endState {check : σ → ℓ → Bool} {start : σ} {labels : List ℓ}
    (runs : (exec step check start labels).isSome = true) : σ :=
  (exec step check start labels).get runs

theorem Run.of_endState {check : σ → ℓ → Bool}
    (sound : ∀ s label, check s label = true → meets s label)
    (runs : (exec step check start labels).isSome = true) :
    Run step meets start labels (endState runs) :=
  Run.of_exec sound labels (Option.some_get runs).symm

end Run

/-! ### Pools of threads -/

/-- Threads of programs over a shared state. -/
structure Pool {Op : Type} (Answer : Op → Type) (σ : Type) where
  shared : σ
  threads : Nat → Program Answer Unit
  spawned : Nat

namespace Pool

variable {Op : Type} {Answer : Op → Type} {σ Φ : Type}

/-- Start one more thread. -/
def spawn (pool : Pool Answer σ) (c : Program Answer Unit) : Pool Answer σ :=
  { pool with
    threads := Function.update pool.threads pool.spawned c
    spawned := pool.spawned + 1 }

/-- Thread `i` asks its next question: `perform` answers it and changes the shared state. A question
`perform` does not answer yet blocks the thread. -/
def stepThread (perform : Nat → (o : Op) → σ → Option (Answer o × σ)) (i : Nat)
    (pool : Pool Answer σ) : Option (Pool Answer σ) :=
  match pool.threads i with
  | .pure _ => none
  | .throw => none
  | .op o next => (perform i o pool.shared).map fun result =>
      { pool with
        shared := result.2
        threads := Function.update pool.threads i (next result.1) }

variable {perform : Nat → (o : Op) → σ → Option (Answer o × σ)} {i : Nat}
  {pool pool' : Pool Answer σ}

/-- **All a thread's step can do.** -/
theorem stepThread_spec (stepped : pool.stepThread perform i = some pool') :
    ∃ o next answer shared', pool.threads i = .op o next ∧
      perform i o pool.shared = some (answer, shared') ∧
      pool' = { pool with
        shared := shared'
        threads := Function.update pool.threads i (next answer) } := by
  unfold stepThread at stepped
  split at stepped
  · cases stepped
  · cases stepped
  · rename_i o next thread
    obtain ⟨⟨answer, shared'⟩, performed, rfl⟩ := Option.map_eq_some_iff.mp stepped
    exact ⟨o, next, answer, shared', thread, performed, rfl⟩

/-- A thread's question is answered. -/
theorem stepThread_eq {o : Op} {next : Answer o → Program Answer Unit} {answer : Answer o}
    {shared' : σ} (thread : pool.threads i = .op o next)
    (performed : perform i o pool.shared = some (answer, shared')) :
    pool.stepThread perform i = some { pool with
      shared := shared'
      threads := Function.update pool.threads i (next answer) } := by
  simp only [stepThread, thread, performed, Option.map_some]

/-- Every thread keeps to the protocol from its own phase. -/
def Keeps (T : Typestate Answer Φ) (phases : Nat → Φ) (pool : Pool Answer σ) : Prop :=
  ∀ i, Follows T (fun _ => True) (phases i) (pool.threads i)

variable {T : Typestate Answer Φ} {phases : Nat → Φ}

theorem Keeps.may {o : Op} {next : Answer o → Program Answer Unit} (keeps : pool.Keeps T phases)
    (thread : pool.threads i = .op o next) : T.may (phases i) o := by
  have follows := keeps i
  rw [thread] at follows
  exact follows.1

/-- **A thread's step keeps the protocol**, its phase moved by the answer. -/
theorem Keeps.step {o : Op} {next : Answer o → Program Answer Unit} {answer : Answer o}
    (keeps : pool.Keeps T phases) (thread : pool.threads i = .op o next)
    (expected : T.expects (phases i) o answer) (shared' : σ) :
    Keeps T (Function.update phases i (T.after (phases i) o answer)) { pool with
      shared := shared'
      threads := Function.update pool.threads i (next answer) } := by
  intro j
  by_cases same : j = i
  · subst same
    have follows := keeps j
    rw [thread] at follows
    simp only [Function.update_self]
    exact follows.2 answer expected
  · simp only [Function.update_of_ne same]
    exact keeps j

/-- **A new thread keeps the protocol** if its program does. -/
theorem Keeps.spawn {c : Program Answer Unit} {φ : Φ} (keeps : pool.Keeps T phases)
    (follows : Follows T (fun _ => True) φ c) :
    Keeps T (Function.update phases pool.spawned φ) (pool.spawn c) := by
  intro j
  by_cases same : j = pool.spawned
  · subst same
    simp only [Pool.spawn, Function.update_self]
    exact follows
  · simp only [Pool.spawn, Function.update_of_ne same]
    exact keeps j

section Adhere

variable {thrown final : Φ → Prop}

/-- Every thread adheres to the protocol from its own phase. -/
def Adhere (T : Typestate Answer Φ) (thrown final : Φ → Prop) (phases : Nat → Φ)
    (pool : Pool Answer σ) : Prop :=
  ∀ i, Adheres T thrown final (phases i) (pool.threads i)

/-- The program of a thread that asks. -/
theorem Adhere.asks {o : Op} {next : Answer o → Program Answer Unit}
    (adhere : pool.Adhere T thrown final phases) (thread : pool.threads i = .op o next) :
    Adheres T thrown final (phases i) (.op o next) := by
  rw [← thread]
  exact adhere i

/-- **A thread's step adheres**, its phase moved by the answer. -/
theorem Adhere.step {o : Op} {next : Answer o → Program Answer Unit} {answer : Answer o}
    (adhere : pool.Adhere T thrown final phases) (thread : pool.threads i = .op o next)
    (expected : T.expects (phases i) o answer) (shared' : σ) :
    Adhere T thrown final (Function.update phases i (T.after (phases i) o answer)) { pool with
      shared := shared'
      threads := Function.update pool.threads i (next answer) } := by
  intro j
  by_cases same : j = i
  · subst same
    simp only [Function.update_self]
    exact (adhere.asks thread).2 answer expected
  · simp only [Function.update_of_ne same]
    exact adhere j

/-- **A new thread adheres** if its program does. -/
theorem Adhere.spawn {c : Program Answer Unit} {φ : Φ} (adhere : pool.Adhere T thrown final phases)
    (adheres : Adheres T thrown final φ c) :
    Adhere T thrown final (Function.update phases pool.spawned φ) (pool.spawn c) := by
  intro j
  by_cases same : j = pool.spawned
  · subst same
    simp only [Pool.spawn, Function.update_self]
    exact adheres
  · simp only [Pool.spawn, Function.update_of_ne same]
    exact adhere j

end Adhere

section Stateless

variable {T : Typestate Answer Unit}

/-- `Keeps.step` for a protocol without phases. -/
theorem Keeps.step_unit {o : Op} {next : Answer o → Program Answer Unit} {answer : Answer o}
    (keeps : pool.Keeps T fun _ => ()) (thread : pool.threads i = .op o next)
    (expected : T.expects () o answer) (shared' : σ) :
    Keeps T (fun _ => ()) { pool with
      shared := shared'
      threads := Function.update pool.threads i (next answer) } := by
  have stepped := keeps.step thread expected shared'
  rwa [Subsingleton.elim (Function.update _ _ _) fun _ => ()] at stepped

/-- `Keeps.spawn` for a protocol without phases. -/
theorem Keeps.spawn_unit {c : Program Answer Unit} (keeps : pool.Keeps T fun _ => ())
    (follows : Follows T (fun _ => True) () c) : Keeps T (fun _ => ()) (pool.spawn c) := by
  have spawned := keeps.spawn follows
  rwa [Subsingleton.elim (Function.update _ _ _) fun _ => ()] at spawned

end Stateless

/-! ### One thread by itself -/

section Alone

variable {ℓ : Type} {step : Pool Answer σ → ℓ → Option (Pool Answer σ)}
  {meets : Pool Answer σ → ℓ → Prop} {alone : (o : Op) → σ → Option (Answer o × σ)}
  {holds : σ → Prop} {thrown final : σ → Prop}

/-- **A thread can be run to its end** while all others stand still, if the steps can answer each of
its questions as `alone` does. -/
theorem runs_alone
    (does : ∀ (pool : Pool Answer σ) o next answer shared', holds pool.shared →
      pool.threads i = .op o next → alone o pool.shared = some (answer, shared') →
      holds shared' ∧ ∃ labels, Run step meets pool labels { pool with
        shared := shared'
        threads := Function.update pool.threads i (next answer) })
    (pool : Pool Answer σ) (start : holds pool.shared)
    (adheres : Adheres (.alone alone) thrown final pool.shared (pool.threads i)) :
    ∃ labels pool', Run step meets pool labels pool' ∧ holds pool'.shared ∧
      pool'.spawned = pool.spawned ∧ (∀ j, j ≠ i → pool'.threads j = pool.threads j) ∧
      ((∃ value, pool'.threads i = .pure value ∧ final pool'.shared) ∨
        pool'.threads i = .throw ∧ thrown pool'.shared) := by
  generalize thread : pool.threads i = c at adheres
  induction c generalizing pool with
  | pure value =>
    exact ⟨[], pool, .nil, start, rfl, fun _ _ => rfl, .inl ⟨value, thread, adheres⟩⟩
  | throw => exact ⟨[], pool, .nil, start, rfl, fun _ _ => rfl, .inr ⟨thread, adheres⟩⟩
  | op o next ih =>
    obtain ⟨⟨answer, shared'⟩, performed⟩ := Option.isSome_iff_exists.mp adheres.1
    obtain ⟨still, labels, first⟩ := does pool o next answer shared' start thread performed
    have rest := adheres.answered ⟨shared', performed⟩ (Typestate.alone_after performed)
    obtain ⟨more, pool', later, held, spawned, others, ended⟩ :=
      ih answer { pool with
        shared := shared'
        threads := Function.update pool.threads i (next answer) } still
        (Function.update_self ..) rest
    refine ⟨labels ++ more, pool', first.trans later, held, spawned, fun j other => ?_, ended⟩
    exact (others j other).trans (Function.update_of_ne other ..)

end Alone

end Pool

end Wookie.Library
