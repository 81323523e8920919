/-
**Calls on an object, one after the other.**

* `EachCall` — every call of a sequence meets a condition on the state it finds.
* `eachCall_iff` — a condition can be replaced by one that is equivalent wherever an invariant
  holds.
* `eachCall_iff_of_simulates` — a machine that simulates another while its calls are right is right
  throughout if and only if the other one's states say so.
* `foldlM_history` — a loop whose rounds can fail, and what its rounds keep.
-/

import Mathlib.Logic.Basic

namespace Wookie.Library

variable {σ τ κ : Type}

/-- Every call meets the condition, in the state it finds. -/
def EachCall (step : σ → κ → σ) (meets : σ → κ → Prop) : σ → List κ → Prop
  | _, [] => True
  | state, call :: rest => meets state call ∧ EachCall step meets (step state call) rest

variable {step : σ → κ → σ} {meets meets' : σ → κ → Prop}

/-- **Equivalent conditions**, as far as the invariant goes. -/
theorem eachCall_iff (holds : σ → Prop) {calls : List κ}
    (keeps : ∀ s, ∀ call ∈ calls, holds s → holds (step s call))
    (same : ∀ s, ∀ call ∈ calls, holds s → (meets s call ↔ meets' s call)) {s : σ}
    (initial : holds s) : EachCall step meets s calls ↔ EachCall step meets' s calls := by
  induction calls generalizing s with
  | nil => exact Iff.rfl
  | cons call rest ih =>
    refine and_congr (same s call List.mem_cons_self initial) (ih ?_ ?_ ?_)
    · exact fun s other listed => keeps s other (List.mem_cons_of_mem _ listed)
    · exact fun s other listed => same s other (List.mem_cons_of_mem _ listed)
    · exact keeps s call List.mem_cons_self initial

/-- **Simulation while the calls are right.** `view` is what the other machine sees, `fits` what its
calls are promised. -/
theorem eachCall_iff_of_simulates {step' : τ → κ → τ} {fits right : τ → κ → Prop} {view : σ → τ}
    (holds : σ → Prop) (keeps : ∀ s call, holds s → holds (step s call))
    (same : ∀ s call, holds s → fits (view s) call → (meets s call ↔ right (view s) call))
    (follows : ∀ s call, meets s call → view (step s call) = step' (view s) call)
    {s : σ} (initial : holds s) {calls : List κ} (promised : EachCall step' fits (view s) calls) :
    EachCall step meets s calls ↔ EachCall step' right (view s) calls := by
  induction calls generalizing s with
  | nil => exact Iff.rfl
  | cons call rest ih =>
    obtain ⟨fit, later⟩ := promised
    constructor
    · rintro ⟨met, others⟩
      rw [← follows s call met] at later
      refine ⟨(same s call initial fit).mp met, ?_⟩
      rw [← follows s call met]
      exact (ih (keeps s call initial) later).mp others
    · rintro ⟨correct, others⟩
      have met := (same s call initial fit).mpr correct
      rw [← follows s call met] at later others
      exact ⟨met, (ih (keeps s call initial) later).mpr others⟩

/-- Where all calls are right, the other machine sees where they lead. -/
theorem EachCall.view_foldl {step' : τ → κ → τ} {view : σ → τ}
    (follows : ∀ s call, meets s call → view (step s call) = step' (view s) call) {s : σ}
    {calls : List κ} (each : EachCall step meets s calls) :
    view (calls.foldl step s) = calls.foldl step' (view s) := by
  induction calls generalizing s with
  | nil => rfl
  | cons call rest ih =>
    rw [List.foldl_cons, List.foldl_cons, ← follows s call each.1]
    exact ih each.2

/-- **A loop whose rounds all return**, with what they keep of the calls made so far. -/
theorem foldlM_history {round : σ → κ → Option σ} (holds : List κ → σ → Prop) {calls : List κ}
    (keeps : ∀ before s, ∀ call ∈ calls, holds before s →
      ∃ s', round s call = some s' ∧ holds (before ++ [call]) s') {s : σ} (initial : holds [] s) :
    ∃ s', calls.foldlM round s = some s' ∧ holds calls s' := by
  suffices later : ∀ before s, holds before s →
      ∃ s', calls.foldlM round s = some s' ∧ holds (before ++ calls) s' from later [] s initial
  clear initial
  induction calls with
  | nil => exact fun before s held => ⟨s, rfl, by rwa [List.append_nil]⟩
  | cons call rest ih =>
    intro before s held
    obtain ⟨middle, returned, held⟩ := keeps before s call List.mem_cons_self held
    obtain ⟨s', ran, held⟩ := ih
      (fun earlier s other listed => keeps earlier s other (List.mem_cons_of_mem _ listed))
      (before ++ [call]) middle held
    refine ⟨s', ?_, by rwa [List.append_assoc] at held⟩
    rw [List.foldlM_cons, returned]
    exact ran

end Wookie.Library
