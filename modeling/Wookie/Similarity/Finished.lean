/-
**What is left when the workers have returned.**

`add_documents` joins its workers and stops the network service. A worker returns when `pending` is
zero, and a normalisation request is not counted.

* `finished_of_direct` — without a normalisation URL a worker returns when its work is done.
* `worker_returns` — with one, it returns with its requests outstanding.
* `finishes_iff` — **nothing is outstanding when all workers have returned** if and only if there is
  no normalisation URL, or no worker, or no document that parses.
* `returns_early` — one document.
-/

import Wookie.Similarity.Outstanding

namespace Wookie.Loading

open Library

/-- **No normalisation request, document write or index update is outstanding.** -/
def State.Finished (s : State) : Prop :=
  ∀ job ∈ s.jobs, job.stage ≠ .normalize ∧ job.stage ≠ .write ∧ job.stage ≠ .index

/-- **`add_documents` finishes its work** before it returns, in every run. -/
def Finishes (setup : Setup) : Prop :=
  ∀ labels s, Run (step setup) AnyStep setup.start labels s → s.AllReturned setup → s.Finished

section Finished

variable {setup : Setup} {s : State} {i : ℕ}

/-- Workers that have returned have nothing outstanding, without a normalisation URL. -/
theorem finished_of_direct (direct : Direct setup s) (all : s.AllReturned setup) : s.Finished := by
  have counted (job : Job) (listed : job ∈ s.jobs) : job.owing job.dth = false := by
    have ended := all job.dth (direct.running job listed)
    have none := direct.pending job.dth
    rw [direct.returned job.dth ended, ended] at none
    have zero : s.owing job.dth = 0 := by
      simp only [Worker.owed] at none
      omega
    exact Bool.eq_false_iff.mpr (List.countP_eq_zero.mp zero job listed)
  intro job listed
  have notOwing := counted job listed
  refine ⟨direct.requests job listed, fun stage => ?_, fun stage => ?_⟩ <;>
    simp [Job.owing, stage] at notOwing

/-- Without a worker, or a document that parses, nothing is ever under way. -/
theorem finished_of_noWork (noWork : ∀ i, NoWork setup s i) : s.Finished :=
  fun job listed => absurd rfl ((noWork job.dth).jobs job listed)

/-! ### With a normalisation URL -/

/-- The requests of a worker. -/
def requests (setup : Setup) (i : ℕ) (rest : List ℤ) : List Job :=
  (rest.filter setup.parses).map fun id => ⟨i, id, .normalize⟩

/-- **A worker returns** with its requests outstanding. -/
theorem worker_returns (normalizes : setup.normalizes = true) (below : i < setup.cpunum.toNat)
    {rest : List ℤ} (at_ : s.workers i = .next rest) (none : s.pending i = 0) :
    ∃ labels, Run (step setup) AnyStep s labels { s with
      workers := Function.update s.workers i .returned
      jobs := s.jobs ++ requests setup i rest } := by
  induction rest generalizing s with
  | nil =>
    have first : step setup s (.worker i) =
        some { s with workers := Function.update s.workers i .test } := by
      simp [step, below, State.workerStep, at_]
    have second : step setup { s with workers := Function.update s.workers i .test } (.worker i) =
        some { s with workers := Function.update s.workers i .returned } := by
      simp [step, below, State.workerStep, none]
    refine ⟨[.worker i, .worker i], ?_⟩
    rw [requests, List.filter_nil, List.map_nil, List.append_nil]
    exact .cons_run trivial first (.cons_run trivial second .nil)
  | cons id rest ih =>
    have first : step setup s (.worker i) = some { s with
        workers := Function.update s.workers i (.next rest)
        jobs := s.jobs ++ requests setup i [id] } := by
      cases parsed : setup.parses id <;>
        simp [step, below, State.workerStep, at_, parsed, normalizes, requests]
    obtain ⟨labels, later⟩ := ih (s := { s with
        workers := Function.update s.workers i (.next rest)
        jobs := s.jobs ++ requests setup i [id] }) (Function.update_self _ _ _) none
    refine ⟨.worker i :: labels, .cons_run trivial first ?_⟩
    have split :
        requests setup i [id] ++ requests setup i rest = requests setup i (id :: rest) := by
      rw [requests, requests, ← List.map_append, ← List.filter_append, List.singleton_append]
      rfl
    simpa only [Function.update_idem, List.append_assoc, split] using later

/-- **All workers return**, one after the other. -/
theorem workers_return (normalizes : setup.normalizes = true) {n : ℕ}
    (below : n ≤ setup.cpunum.toNat) :
    ∃ labels s, Run (step setup) AnyStep setup.start labels s ∧
      (∀ i < n, s.workers i = .returned) ∧
      (∀ i, n ≤ i → s.workers i = .next (setup.documentsOf i)) ∧ (∀ i, s.pending i = 0) ∧
      ∀ i < n, ∀ job ∈ requests setup i (setup.documentsOf i), job ∈ s.jobs := by
  induction n with
  | zero =>
    exact ⟨[], setup.start, .nil, fun i none => absurd none (Nat.not_lt_zero i), fun _ _ => rfl,
      fun _ => rfl, fun i none => absurd none (Nat.not_lt_zero i)⟩
  | succ n ih =>
    obtain ⟨labels, s, run, returned, waiting, pending, outstanding⟩ := ih (by omega)
    obtain ⟨more, later⟩ :=
      worker_returns normalizes (by omega) (waiting n (Nat.le_refl n)) (pending n)
    refine ⟨_, _, run.trans later, fun i inside => ?_, fun i behind => ?_, pending,
      fun i inside job listed => List.mem_append.mpr ?_⟩
    · show Function.update s.workers n .returned i = .returned
      by_cases last : i = n
      · rw [last, Function.update_self]
      · rw [Function.update_of_ne last]
        exact returned i (by omega)
    · show Function.update s.workers n .returned i = _
      rw [Function.update_of_ne (by omega)]
      exact waiting i (by omega)
    · by_cases last : i = n
      · exact .inr (last ▸ listed)
      · exact .inl (outstanding i (by omega) job listed)

/-- **The workers return too early**: a request of a document is not counted. -/
theorem not_finishes (normalizes : setup.normalizes = true) (workers : 0 < setup.cpunum) {id : ℤ}
    (listed : id ∈ setup.docIds) (parsed : setup.parses id = true) : ¬ Finishes setup := by
  intro finishes
  obtain ⟨i, below, own⟩ := exists_mem_documentsOf workers listed
  obtain ⟨labels, s, run, returned, -, -, outstanding⟩ :=
    workers_return normalizes (Nat.le_refl setup.cpunum.toNat)
  have request := outstanding i below ⟨i, id, .normalize⟩
    (List.mem_map.mpr ⟨id, List.mem_filter.mpr ⟨own, parsed⟩, rfl⟩)
  exact (finishes labels s run returned _ request).1 rfl

end Finished

/-- **Nothing is outstanding when all workers have returned**, in every run, if and only if there is
no normalisation URL, or no worker, or no document that parses. -/
theorem finishes_iff (setup : Setup) :
    Finishes setup ↔ setup.normalizes = false ∨ setup.cpunum ≤ 0 ∨
      ∀ id ∈ setup.docIds, setup.parses id = false := by
  constructor
  · intro finishes
    by_contra early
    obtain ⟨normalizes, workers, some⟩ := by simpa only [not_or, not_forall] using early
    obtain ⟨id, listed, parsed⟩ := some
    exact not_finishes (eq_true_of_ne_false normalizes) (by omega) listed
      (eq_true_of_ne_false parsed) finishes
  · rintro (plain | none | none) labels s run all
    · exact finished_of_direct (.of_run plain run) all
    · refine finished_of_noWork fun i => .of_run (fun id listed => ?_) run
      rw [documentsOf_of_not_pos none] at listed
      cases listed
    · exact finished_of_noWork fun i =>
        .of_run (fun id listed => none id (mem_docIds_of_mem_documentsOf listed)) run

/-- **One document and a normalisation URL**: its worker returns before the reply has come in. -/
theorem returns_early : ¬ Finishes ⟨[7], fun _ => true, true, 1⟩ :=
  not_finishes rfl Int.zero_lt_one List.mem_cons_self rfl

end Wookie.Loading
