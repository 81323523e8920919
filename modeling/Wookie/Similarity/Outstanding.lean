/-
**What is outstanding for the documents of a worker.**

* `workerStep_cases`, `jobStep_cases`, `wake_cases` — all that a step of a worker, of a job and a
  wake-up can do.
* `NoWork.of_run` — a worker none of whose documents parses has nothing under way, ever.
* `Direct.of_run` — without a normalisation URL, `pending` counts the writes and index updates of a
  worker that are not completed, but for one that it has just issued.
-/

import Wookie.Similarity.Loading

namespace Wookie.Loading

open Library

/-! ### Where a worker sleeps -/

/-- Where a worker sleeps, in `pack_and_send` or at its end. -/
def Worker.sleeping : Worker → Option Sleep
  | .send (.sleep phase) _ => some phase
  | .sleep phase => some phase
  | _ => none

/-- Waiting on the condition variable. -/
def Worker.Asleep (worker : Worker) : Prop := worker.sleeping = some .asleep

/-- Between a test of `pending` and the wait. -/
def Worker.Window (worker : Worker) : Prop := ∃ phase ∈ worker.sleeping, phase.Window

/-- Behind a test of `pending`, and not woken up yet. -/
def Worker.Hoping (worker : Worker) : Prop := ∃ phase ∈ worker.sleeping, phase.Hoping

/-- With the mutex. -/
def Worker.Holding (worker : Worker) : Prop := ∃ phase ∈ worker.sleeping, phase.Holding

/-- A write that was issued and is not counted yet. -/
def Worker.owed : Worker → ℤ
  | .send .increment _ => 1
  | _ => 0

theorem not_hoping {worker : Worker} (awake : worker.sleeping = none) : ¬ worker.Hoping := by
  rintro ⟨phase, at_, -⟩
  rw [awake] at at_
  cases at_

theorem not_holding {worker : Worker} (awake : worker.sleeping = none) : ¬ worker.Holding := by
  rintro ⟨phase, at_, -⟩
  rw [awake] at at_
  cases at_

theorem Worker.Asleep.hoping {worker : Worker} (asleep : worker.Asleep) : worker.Hoping :=
  ⟨.asleep, asleep, .inr rfl⟩

theorem Worker.Hoping.cases {worker : Worker} (hoping : worker.Hoping) :
    worker.Window ∨ worker.Asleep := by
  obtain ⟨phase, at_, window | rfl⟩ := hoping
  · exact .inl ⟨phase, at_, window⟩
  · exact .inr at_

/-! ### All that a step can do -/

section Steps

variable {setup : Setup} {s s' : State} {i k : ℕ} {who : Who} {worker : Worker}

/-- A sleeper changes the lock only, and was about to sleep if it is asleep. -/
theorem sleepStep_cases {phase : Sleep} {next : Option Sleep}
    (stepped : s.sleepStep i who phase = some (next, s')) :
    ∃ holder, s' = { s with lock := Function.update s.lock i holder } ∧
      (∀ after ∈ next, after.Hoping → phase.Hoping) ∧
      (holder ≠ none → ∃ after ∈ next, after.Holding) := by
  obtain ⟨⟨at_, holder⟩, moved, same⟩ := Option.map_eq_some_iff.mp stepped
  cases same
  refine ⟨holder, rfl, ?_, Sleep.step_holding moved⟩
  rintro after ⟨⟩ hoping
  exact Sleep.step_hoping moved hoping

/-- A move of a worker that issues nothing and counts nothing. -/
structure Quiet (s : State) (i : ℕ) (worker : Worker) (holder : Option Who) : Prop where
  owed : worker.owed = (s.workers i).owed
  returned : worker = .returned → s.pending i = 0
  hoping : worker.Hoping → (s.workers i).Hoping ∨ s.pending i ≠ 0
  holding : holder ≠ none → worker.Holding ∨ s.lock i ≠ none ∧ ¬ (s.workers i).Holding

/-- A move to a place where the worker is awake and has not returned. -/
theorem Quiet.of_awake (owed : worker.owed = (s.workers i).owed) (goesOn : worker ≠ .returned)
    (was : (s.workers i).sleeping = none) (awake : worker.sleeping = none) :
    Quiet s i worker (s.lock i) :=
  ⟨owed, fun returned => absurd returned goesOn, fun hoping => absurd hoping (not_hoping awake),
    fun held => .inr ⟨held, not_holding was⟩⟩

/-- A move on a test of `pending` that finds some. -/
theorem Quiet.of_pending (owed : worker.owed = (s.workers i).owed) (goesOn : worker ≠ .returned)
    (was : (s.workers i).sleeping = none) (some : s.pending i ≠ 0) :
    Quiet s i worker (s.lock i) :=
  ⟨owed, fun returned => absurd returned goesOn, fun _ => .inr some,
    fun held => .inr ⟨held, not_holding was⟩⟩

/-- A step of a worker that sleeps: it stays in the monitor, or is done with it. -/
theorem Quiet.of_sleeping {phase : Sleep} {holder : Option Who}
    (owed : worker.owed = (s.workers i).owed) (goesOn : worker ≠ .returned)
    (was : (s.workers i).sleeping = some phase)
    (hoping : ∀ after ∈ worker.sleeping, after.Hoping → phase.Hoping)
    (holding : holder ≠ none → worker.Holding) : Quiet s i worker holder := by
  refine ⟨owed, fun returned => absurd returned goesOn, ?_, fun held => .inl (holding held)⟩
  rintro ⟨after, at_, later⟩
  exact .inl ⟨phase, was, hoping after at_ later⟩

/-- A move that leaves the locks alone. -/
theorem exists_holder (quiet : Quiet s i worker (s.lock i)) :
    ∃ holder, s = { s with lock := Function.update s.lock i holder } ∧ Quiet s i worker holder :=
  ⟨s.lock i, by rw [Function.update_eq_self], quiet⟩

/-- **All that a step of a worker can do**, without a normalisation URL. -/
theorem workerStep_cases (direct : setup.normalizes = false)
    (stepped : s.workerStep setup i = some (worker, s')) :
    (∃ holder, s' = { s with lock := Function.update s.lock i holder } ∧
      Quiet s i worker holder) ∨
    (∃ id rest, s.workers i = .send (.write id) rest ∧ worker = .send .increment rest ∧
      s' = { s with jobs := s.jobs ++ [⟨i, id, .write⟩] }) ∨
    (∃ rest, s.workers i = .send .increment rest ∧ worker = .send .test rest ∧
      s' = { s with pending := Function.update s.pending i (s.pending i + 1) }) := by
  unfold State.workerStep at stepped
  split at stepped
  next at_ =>
    cases stepped
    exact .inl (exists_holder (.of_awake (by rw [at_]; rfl) nofun (by rw [at_]; rfl) rfl))
  next id rest at_ =>
    have quiet (next : Worker) (owed : next.owed = 0) (goesOn : next ≠ .returned)
        (awake : next.sleeping = none) : Quiet s i next (s.lock i) :=
      .of_awake (by rw [owed, at_]; rfl) goesOn (by rw [at_]; rfl) awake
    rw [direct] at stepped
    split at stepped
    · cases stepped
      exact .inl (exists_holder (quiet _ rfl nofun rfl))
    · cases stepped
      exact .inl (exists_holder (quiet _ rfl nofun rfl))
  next send rest at_ =>
    obtain ⟨⟨next, after⟩, sent, same⟩ := Option.map_eq_some_iff.mp stepped
    cases same
    cases send with
    | write id =>
      cases sent
      exact .inr (.inl ⟨id, rest, at_, rfl, rfl⟩)
    | increment =>
      cases sent
      exact .inr (.inr ⟨rest, at_, rfl, rfl⟩)
    | test =>
      cases sent
      refine .inl (exists_holder ?_)
      split
      next many =>
        have positive : (0 : ℤ) ≤ maxPending := by decide
        exact .of_pending (by rw [at_]; rfl) nofun (by rw [at_]; rfl) (by omega)
      · exact .of_awake (by rw [at_]; rfl) nofun (by rw [at_]; rfl) rfl
    | sleep phase =>
      obtain ⟨⟨next', after'⟩, slept, same⟩ := Option.map_eq_some_iff.mp sent
      cases same
      obtain ⟨holder, rfl, hoping, holding⟩ := sleepStep_cases slept
      refine .inl ⟨holder, rfl, ?_⟩
      have was : (s.workers i).sleeping = some phase := by rw [at_]; rfl
      cases next' with
      | none =>
        show Quiet s i (.next rest) holder
        exact .of_sleeping (by rw [at_]; rfl) nofun was hoping holding
      | some next' =>
        show Quiet s i (.send (.sleep next') rest) holder
        exact .of_sleeping (by rw [at_]; rfl) nofun was hoping holding
  next at_ =>
    cases stepped
    refine .inl (exists_holder ?_)
    split
    next some_ => exact .of_pending (by rw [at_]; rfl) nofun (by rw [at_]; rfl) some_
    next none =>
      exact ⟨by rw [at_]; rfl, fun _ => not_not.mp none, fun later => absurd later (not_hoping rfl),
        fun held => .inr ⟨held, not_holding (by rw [at_]; rfl)⟩⟩
  next phase at_ =>
    obtain ⟨⟨next, after⟩, slept, same⟩ := Option.map_eq_some_iff.mp stepped
    cases same
    obtain ⟨holder, rfl, hoping, holding⟩ := sleepStep_cases slept
    refine .inl ⟨holder, rfl, ?_⟩
    have was : (s.workers i).sleeping = some phase := by rw [at_]; rfl
    cases next with
    | none =>
      show Quiet s i .test holder
      exact .of_sleeping (by rw [at_]; rfl) nofun was hoping holding
    | some next =>
      show Quiet s i (.sleep next) holder
      exact .of_sleeping (by rw [at_]; rfl) nofun was hoping holding
  next => cases stepped

/-- **All that a wake-up can do.** -/
theorem wake_worker_cases (woken : s.wake i .worker = some s') :
    ∃ worker, s' = { s with workers := Function.update s.workers i worker } ∧
      (s.workers i).Asleep ∧ worker.sleeping = some .woken ∧
      worker.owed = (s.workers i).owed := by
  simp only [State.wake] at woken
  split at woken
  next rest at_ =>
    cases woken
    exact ⟨_, rfl, by rw [at_]; rfl, rfl, by rw [at_]; rfl⟩
  next at_ =>
    cases woken
    exact ⟨_, rfl, by rw [at_]; rfl, rfl, by rw [at_]; rfl⟩
  next => cases woken

theorem wake_service_cases (woken : s.wake i .service = some s') :
    ∃ id calls, s.service = .busy i id calls (some (.sleep .asleep)) ∧
      s' = { s with service := .busy i id calls (some (.sleep .woken)) } := by
  simp only [State.wake] at woken
  split at woken
  next j id calls at_ =>
    split at woken
    next same =>
      cases woken
      exact ⟨id, calls, same ▸ at_, by rw [same]⟩
    next => cases woken
  next => cases woken

/-- Somebody wakes up, or nobody is asleep. -/
theorem notifyOne_cases (notified : s.notifyOne i who = some s') :
    s.wake i who = some s' ∨ s' = s ∧ ∀ who, s.wake i who = none := by
  unfold State.notifyOne at notified
  split at notified
  next woken => exact .inl (woken.trans notified)
  next =>
    split at notified
    next nobody =>
      cases notified
      refine .inr ⟨rfl, fun who => ?_⟩
      rw [Option.isNone_iff_eq_none, Option.isNone_iff_eq_none] at nobody
      cases who with
      | worker => exact nobody.1
      | service => exact nobody.2
    next => cases notified

/-- A worker that is asleep can be woken up. -/
theorem wake_worker_ne_none (asleep : (s.workers i).Asleep) : s.wake i .worker ≠ none := by
  simp only [State.wake]
  split
  next => exact nofun
  next => exact nofun
  next other other' =>
    exfalso
    unfold Worker.Asleep Worker.sleeping at asleep
    split at asleep
    next phase rest at_ =>
      cases asleep
      exact other rest at_
    next phase at_ =>
      cases asleep
      exact other' at_
    next => cases asleep

/-- **All that a step of a job can do.** -/
theorem jobStep_cases (stepped : s.jobStep k who = some s') :
    ∃ job, s.jobs[k]? = some job ∧
      ((job.stage = .write ∧ s' = { s with jobs := s.jobs.set k { job with stage := .index } }) ∨
      (job.stage = .index ∧ s' = { s with
        jobs := s.jobs.set k { job with stage := .test }
        pending := Function.update s.pending job.dth (s.pending job.dth - 1) }) ∨
      (job.stage = .test ∧ s.pending job.dth < maxPending / 2 ∧
        s' = { s with jobs := s.jobs.set k { job with stage := .notify } }) ∨
      (job.stage = .test ∧ maxPending / 2 ≤ s.pending job.dth ∧
        s' = { s with jobs := s.jobs.eraseIdx k }) ∨
      (job.stage = .notify ∧
        State.notifyOne { s with jobs := s.jobs.eraseIdx k } job.dth who = some s')) := by
  obtain ⟨job, held, stepped⟩ := Option.bind_eq_some_iff.mp stepped
  refine ⟨job, held, ?_⟩
  split at stepped
  next => cases stepped
  next stage =>
    cases stepped
    exact .inl ⟨stage, rfl⟩
  next stage =>
    cases stepped
    exact .inr (.inl ⟨stage, rfl⟩)
  next stage =>
    cases stepped
    by_cases few : s.pending job.dth < maxPending / 2
    · exact .inr (.inr (.inl ⟨stage, few, by rw [if_pos few]⟩))
    · exact .inr (.inr (.inr (.inl ⟨stage, Int.not_lt.mp few, by rw [if_neg few]⟩)))
  next stage => exact .inr (.inr (.inr (.inr ⟨stage, stepped⟩)))

/-- **All that a reply can do.** -/
theorem replyStep_cases {calls : ℕ} (stepped : s.replyStep k calls = some s') :
    ∃ i id, s.jobs[k]? = some ⟨i, id, .normalize⟩ ∧ s.service = .idle ∧
      s' = { s with jobs := s.jobs.eraseIdx k, service := .busy i id calls none } := by
  unfold State.replyStep at stepped
  split at stepped
  next i id held idle running =>
    cases stepped
    exact ⟨i, id, held, idle, rfl⟩
  next => cases stepped

end Steps

/-! ### Workers without documents -/

section NoWork

variable {setup : Setup} {s s' : State} {i : ℕ} {label : Label}

/-- Going through documents that do not parse, or behind them. -/
def Worker.Skipping (setup : Setup) (worker : Worker) : Prop :=
  (∃ rest, worker = .next rest ∧ ∀ id ∈ rest, setup.parses id = false) ∨
    worker = .test ∨ worker = .returned

/-- **A worker none of whose documents parses**: it only goes through them. -/
structure NoWork (setup : Setup) (s : State) (i : ℕ) : Prop where
  worker : (s.workers i).Skipping setup
  service : ∀ id calls sending, s.service ≠ .busy i id calls sending
  pending : s.pending i = 0
  jobs : ∀ job ∈ s.jobs, job.dth ≠ i

/-- What belongs to the worker is as it was. -/
structure Untouched (s s' : State) (i : ℕ) : Prop where
  workers : s'.workers = s.workers
  service : s'.service = s.service
  pending : s'.pending i = s.pending i
  jobs : ∀ job ∈ s'.jobs, job.dth = i → job ∈ s.jobs

/-- `pack_and_send` for another worker. -/
theorem sendStep_untouched {j : ℕ} (other : i ≠ j) {who : Who} {send : Send} {next : Option Send}
    (stepped : s.sendStep j who send = some (next, s')) : Untouched s s' i := by
  cases send with
  | write id =>
    cases stepped
    refine ⟨rfl, rfl, rfl, fun job listed own => ?_⟩
    rcases List.mem_append.mp listed with old | new
    · exact old
    · rw [List.mem_singleton.mp new] at own
      exact absurd own.symm other
  | increment =>
    cases stepped
    exact ⟨rfl, rfl, Function.update_of_ne other _ _, fun _ listed _ => listed⟩
  | test =>
    cases stepped
    exact ⟨rfl, rfl, rfl, fun _ listed _ => listed⟩
  | sleep phase =>
    obtain ⟨⟨at_, after⟩, slept, same⟩ := Option.map_eq_some_iff.mp stepped
    cases same
    obtain ⟨holder, rfl, -⟩ := sleepStep_cases slept
    exact ⟨rfl, rfl, rfl, fun _ listed _ => listed⟩

/-- A step of another worker. -/
theorem workerStep_untouched {j : ℕ} (other : i ≠ j) {worker : Worker}
    (stepped : s.workerStep setup j = some (worker, s')) : Untouched s s' i := by
  have refl : Untouched s s i := ⟨rfl, rfl, rfl, fun _ listed _ => listed⟩
  unfold State.workerStep at stepped
  split at stepped
  next => cases stepped; exact refl
  next id rest at_ =>
    split at stepped
    next => cases stepped; exact refl
    next =>
      split at stepped
      next =>
        cases stepped
        refine ⟨rfl, rfl, rfl, fun job listed own => ?_⟩
        rcases List.mem_append.mp listed with old | new
        · exact old
        · rw [List.mem_singleton.mp new] at own
          exact absurd own.symm other
      next => cases stepped; exact refl
  next send rest at_ =>
    obtain ⟨⟨next, after⟩, sent, same⟩ := Option.map_eq_some_iff.mp stepped
    cases same
    exact sendStep_untouched other sent
  next => cases stepped; exact refl
  next phase at_ =>
    obtain ⟨⟨next, after⟩, slept, same⟩ := Option.map_eq_some_iff.mp stepped
    cases same
    obtain ⟨holder, rfl, -⟩ := sleepStep_cases slept
    exact ⟨rfl, rfl, rfl, fun _ listed _ => listed⟩
  next => cases stepped

/-- What is untouched has no work, as before. -/
theorem NoWork.of_untouched (noWork : NoWork setup s i) (untouched : Untouched s s' i) :
    NoWork setup s' i where
  worker := untouched.workers ▸ noWork.worker
  service := untouched.service ▸ noWork.service
  pending := untouched.pending.trans noWork.pending
  jobs job listed own := noWork.jobs job (untouched.jobs job listed own) own

/-- The worker moves on. -/
theorem NoWork.move (noWork : NoWork setup s i) {worker : Worker}
    (skipping : worker.Skipping setup) :
    NoWork setup { s with workers := Function.update s.workers i worker } i := by
  refine ⟨?_, noWork.service, noWork.pending, noWork.jobs⟩
  show (Function.update s.workers i worker i).Skipping setup
  rwa [Function.update_self]

/-- Another worker moves on. -/
theorem NoWork.move_other (noWork : NoWork setup s i) {j : ℕ} (other : i ≠ j) (worker : Worker) :
    NoWork setup { s with workers := Function.update s.workers j worker } i := by
  refine ⟨?_, noWork.service, noWork.pending, noWork.jobs⟩
  show (Function.update s.workers j worker i).Skipping setup
  rw [Function.update_of_ne other]
  exact noWork.worker

/-- A step of the worker itself. -/
theorem NoWork.workerStep (noWork : NoWork setup s i) {worker : Worker}
    (stepped : s.workerStep setup i = some (worker, s')) :
    s' = s ∧ worker.Skipping setup := by
  unfold State.workerStep at stepped
  rcases noWork.worker with ⟨rest, at_, none⟩ | at_ | at_
  · rw [at_] at stepped
    cases rest with
    | nil =>
      cases stepped
      exact ⟨rfl, .inr (.inl rfl)⟩
    | cons id rest =>
      obtain ⟨unparsed, others⟩ := List.forall_mem_cons.mp none
      simp only [unparsed, Bool.not_false, if_true] at stepped
      cases stepped
      exact ⟨rfl, .inl ⟨rest, rfl, others⟩⟩
  · rw [at_] at stepped
    simp only [noWork.pending, ne_eq, not_true_eq_false, if_false] at stepped
    cases stepped
    exact ⟨rfl, .inr (.inr rfl)⟩
  · rw [at_] at stepped
    cases stepped

/-- Nobody is woken up for it. -/
theorem NoWork.wake (noWork : NoWork setup s i) {j : ℕ} {who : Who}
    (woken : s.wake j who = some s') : NoWork setup s' i := by
  cases who with
  | worker =>
    obtain ⟨worker, rfl, asleep, -⟩ := wake_worker_cases woken
    have other : i ≠ j := by
      rintro rfl
      rcases noWork.worker with ⟨rest, at_, -⟩ | at_ | at_ <;> rw [at_] at asleep <;> cases asleep
    exact noWork.move_other other worker
  | service =>
    obtain ⟨id, calls, busy, rfl⟩ := wake_service_cases woken
    refine ⟨noWork.worker, fun id' calls' sending own => ?_, noWork.pending, noWork.jobs⟩
    cases own
    exact noWork.service _ _ _ busy

/-- Jobs that get on or end. -/
theorem NoWork.jobs_mono (noWork : NoWork setup s i) {jobs : List Job}
    (old : ∀ job ∈ jobs, ∃ before ∈ s.jobs, before.dth = job.dth) :
    NoWork setup { s with jobs } i :=
  ⟨noWork.worker, noWork.service, noWork.pending, fun job listed own => by
    obtain ⟨before, held, same⟩ := old job listed
    exact noWork.jobs before held (same.trans own)⟩

/-- A step of the network service. -/
theorem NoWork.serviceStep (noWork : NoWork setup s i) {service : Service}
    (stepped : s.serviceStep = some (service, s')) : NoWork setup { s' with service } i := by
  unfold State.serviceStep at stepped
  split at stepped
  next => cases stepped
  next =>
    cases stepped
    exact ⟨noWork.worker, nofun, noWork.pending, noWork.jobs⟩
  next j id calls busy =>
    cases stepped
    refine ⟨noWork.worker, fun id' calls' sending own => ?_, noWork.pending, noWork.jobs⟩
    cases own
    exact noWork.service _ _ _ busy
  next j id calls send busy =>
    obtain ⟨⟨next, after⟩, sent, same⟩ := Option.map_eq_some_iff.mp stepped
    cases same
    have other : i ≠ j := by
      rintro rfl
      exact noWork.service _ _ _ busy
    have kept := noWork.of_untouched (sendStep_untouched other sent)
    refine ⟨kept.worker, fun id' calls' sending own => ?_, kept.pending, kept.jobs⟩
    cases own
    exact other rfl

/-- A step of a job. -/
theorem NoWork.jobStep (noWork : NoWork setup s i) {k : ℕ} {who : Who}
    (stepped : s.jobStep k who = some s') : NoWork setup s' i := by
  obtain ⟨job, held, step⟩ := jobStep_cases stepped
  have member := List.mem_of_getElem? held
  have changed (stage : Stage) :
      NoWork setup { s with jobs := s.jobs.set k { job with stage } } i := by
    refine noWork.jobs_mono fun other listed => ?_
    rcases List.mem_or_eq_of_mem_set listed with old | rfl
    · exact ⟨other, old, rfl⟩
    · exact ⟨job, member, rfl⟩
  have gone : NoWork setup { s with jobs := s.jobs.eraseIdx k } i :=
    noWork.jobs_mono fun other listed => ⟨other, List.mem_of_mem_eraseIdx listed, rfl⟩
  rcases step with ⟨-, rfl⟩ | ⟨-, rfl⟩ | ⟨-, -, rfl⟩ | ⟨-, -, rfl⟩ | ⟨-, notified⟩
  · exact changed .index
  · have kept := changed .test
    have other : i ≠ job.dth := fun own => noWork.jobs job member own.symm
    exact ⟨kept.worker, kept.service, (Function.update_of_ne other _ _).trans kept.pending,
      kept.jobs⟩
  · exact changed .notify
  · exact gone
  · rcases notifyOne_cases notified with woken | ⟨rfl, -⟩
    · exact gone.wake woken
    · exact gone

/-- **What one step preserves.** -/
theorem NoWork.step (noWork : NoWork setup s i) (stepped : Loading.step setup s label = some s') :
    NoWork setup s' i := by
  cases label with
  | worker j =>
    simp only [Loading.step] at stepped
    split at stepped
    next =>
      obtain ⟨⟨worker, after⟩, moved, rfl⟩ := Option.map_eq_some_iff.mp stepped
      by_cases own : i = j
      · subst own
        obtain ⟨rfl, place⟩ := noWork.workerStep moved
        exact noWork.move place
      · exact (noWork.of_untouched (workerStep_untouched own moved)).move_other own worker
    next => cases stepped
  | service =>
    obtain ⟨⟨service, after⟩, served, rfl⟩ := Option.map_eq_some_iff.mp stepped
    exact noWork.serviceStep served
  | reply k calls =>
    obtain ⟨j, id, held, -, rfl⟩ := replyStep_cases stepped
    have gone : NoWork setup { s with jobs := s.jobs.eraseIdx k } i :=
      noWork.jobs_mono fun job listed => ⟨job, List.mem_of_mem_eraseIdx listed, rfl⟩
    refine ⟨gone.worker, fun id' calls' sending own => ?_, gone.pending, gone.jobs⟩
    cases own
    exact noWork.jobs _ (List.mem_of_getElem? held) rfl
  | job k who => exact noWork.jobStep stepped
  | spurious j who => exact noWork.wake stepped
  | stop =>
    simp only [Loading.step] at stepped
    split at stepped
    next =>
      cases stepped
      exact ⟨noWork.worker, noWork.service, noWork.pending, noWork.jobs⟩
    next => cases stepped

theorem NoWork.start (none : ∀ id ∈ setup.documentsOf i, setup.parses id = false) :
    NoWork setup setup.start i :=
  ⟨.inl ⟨_, rfl, none⟩, nofun, rfl, fun _ listed => absurd listed List.not_mem_nil⟩

/-- **A worker none of whose documents parses has nothing under way**, in any run. -/
theorem NoWork.of_run (none : ∀ id ∈ setup.documentsOf i, setup.parses id = false)
    {meets : State → Label → Prop} {labels : List Label}
    (run : Run (Loading.step setup) meets setup.start labels s) : NoWork setup s i :=
  run.invariant (fun s => NoWork setup s i) (.start none) fun _ _ _ kept _ stepped =>
    kept.step stepped

end NoWork

/-! ### Without normalisation -/

section Direct

variable {setup : Setup} {s s' : State} {i k : ℕ} {label : Label}

/-- A write or an index update of the worker that is not completed. -/
def Job.owing (i : ℕ) (job : Job) : Bool :=
  job.dth == i && (job.stage == .write || job.stage == .index)

/-- How many of them there are. -/
def State.owing (s : State) (i : ℕ) : ℕ := s.jobs.countP (Job.owing i)

theorem countP_held {job : Job} {counts : Job → Bool} (held : s.jobs[k]? = some job) :
    s.jobs.countP counts = (s.jobs.eraseIdx k).countP counts + if counts job then 1 else 0 := by
  obtain ⟨inside, rfl⟩ := List.getElem?_eq_some_iff.mp held
  rw [← (List.getElem_cons_eraseIdx_perm inside).countP_eq, List.countP_cons]

theorem countP_set {job : Job} {counts : Job → Bool} (held : s.jobs[k]? = some job) (job' : Job) :
    (s.jobs.set k job').countP counts =
      (s.jobs.eraseIdx k).countP counts + if counts job' then 1 else 0 := by
  obtain ⟨inside, rfl⟩ := List.getElem?_eq_some_iff.mp held
  rw [(List.set_perm_cons_eraseIdx inside job').countP_eq, List.countP_cons]

/-- **`pending` counts what is outstanding**, but for a write that was just issued. -/
structure Direct (setup : Setup) (s : State) : Prop where
  idle : s.service = .idle
  requests : ∀ job ∈ s.jobs, job.stage ≠ .normalize
  running : ∀ job ∈ s.jobs, job.dth < setup.cpunum.toNat
  pending : ∀ i, s.pending i + (s.workers i).owed = s.owing i
  returned : ∀ i, s.workers i = .returned → s.pending i = 0

theorem Direct.start (setup : Setup) : Direct setup setup.start :=
  ⟨rfl, fun _ listed => absurd listed List.not_mem_nil,
    fun _ listed => absurd listed List.not_mem_nil, fun _ => rfl, nofun⟩

/-- A step that concerns one worker. -/
theorem Direct.of_change (direct : Direct setup s) (i : ℕ) (service : s'.service = s.service)
    (workers : ∀ j ≠ i, s'.workers j = s.workers j)
    (pending : ∀ j ≠ i, s'.pending j = s.pending j)
    (jobs : ∀ job ∈ s'.jobs, job.stage ≠ .normalize ∧ job.dth < setup.cpunum.toNat)
    (others : ∀ j ≠ i, s'.owing j = s.owing j)
    (balance : s'.pending i + (s'.workers i).owed = s'.owing i)
    (returned : s'.workers i = .returned → s'.pending i = 0) : Direct setup s' := by
  refine ⟨service.trans direct.idle, fun job listed => (jobs job listed).1,
    fun job listed => (jobs job listed).2, fun j => ?_, fun j ended => ?_⟩
  · by_cases own : j = i
    · rwa [own]
    · rw [pending j own, workers j own, others j own]
      exact direct.pending j
  · by_cases own : j = i
    · rw [own] at ended ⊢
      exact returned ended
    · rw [workers j own] at ended
      rw [pending j own]
      exact direct.returned j ended

theorem Direct.jobs (direct : Direct setup s) :
    ∀ job ∈ s.jobs, job.stage ≠ .normalize ∧ job.dth < setup.cpunum.toNat :=
  fun job listed => ⟨direct.requests job listed, direct.running job listed⟩

/-- A worker moves on. -/
theorem Direct.worker (direct : Direct setup s) (below : i < setup.cpunum.toNat) {worker : Worker}
    (plain : setup.normalizes = false) (stepped : s.workerStep setup i = some (worker, s')) :
    Direct setup { s' with workers := Function.update s'.workers i worker } := by
  have before := direct.pending i
  rcases workerStep_cases plain stepped with ⟨holder, rfl, quiet⟩ |
    ⟨id, rest, at_, rfl, rfl⟩ | ⟨rest, at_, rfl, rfl⟩
  · refine direct.of_change i rfl (fun j other => Function.update_of_ne other _ _)
      (fun _ _ => rfl) direct.jobs (fun _ _ => rfl) ?_ fun ended => ?_
    · show s.pending i + (Function.update s.workers i worker i).owed = s.owing i
      rw [Function.update_self, quiet.owed, before]
    · exact quiet.returned ((Function.update_self i worker s.workers).symm.trans ended)
  · refine direct.of_change i rfl (fun j other => Function.update_of_ne other _ _)
      (fun _ _ => rfl) (fun job listed => ?_) (fun j other => ?_) ?_ fun ended => ?_
    · rcases List.mem_append.mp listed with old | new
      · exact direct.jobs job old
      · rw [List.mem_singleton.mp new]
        exact ⟨nofun, below⟩
    · simp [State.owing, Job.owing, Ne.symm other]
    · show s.pending i + (Function.update s.workers i (.send .increment rest) i).owed = _
      rw [at_] at before
      rw [Function.update_self]
      simpa [Worker.owed, Job.owing, State.owing] using before
    · cases (Function.update_self i _ s.workers).symm.trans ended
  · refine direct.of_change i rfl (fun j other => Function.update_of_ne other _ _)
      (fun j other => Function.update_of_ne other _ _) direct.jobs (fun _ _ => rfl) ?_
      fun ended => ?_
    · show Function.update s.pending i (s.pending i + 1) i +
        (Function.update s.workers i (.send .test rest) i).owed = s.owing i
      rw [at_] at before
      rw [Function.update_self, Function.update_self]
      simpa [Worker.owed] using before
    · cases (Function.update_self i _ s.workers).symm.trans ended

/-- The worker wakes up. -/
theorem Direct.wake (direct : Direct setup s) (woken : s.wake i .worker = some s') :
    Direct setup s' := by
  obtain ⟨worker, rfl, -, awake, owed⟩ := wake_worker_cases woken
  refine direct.of_change i rfl (fun j other => Function.update_of_ne other _ _)
    (fun _ _ => rfl) direct.jobs (fun _ _ => rfl) ?_ fun ended => ?_
  · show s.pending i + (Function.update s.workers i worker i).owed = s.owing i
    rw [Function.update_self, owed]
    exact direct.pending i
  · rw [(Function.update_self i worker s.workers).symm.trans ended] at awake
    cases awake

/-- A completion notifies its worker, where the network service is idle. -/
theorem notifyOne_idle {who : Who} (notified : s.notifyOne i who = some s')
    (idle : s.service = .idle) :
    s.wake i .worker = some s' ∨ s' = s ∧ ¬ (s.workers i).Asleep := by
  rcases notifyOne_cases notified with woken | ⟨rfl, nobody⟩
  · cases who with
    | worker => exact .inl woken
    | service =>
      obtain ⟨id, calls, busy, -⟩ := wake_service_cases woken
      cases idle.symm.trans busy
  · exact .inr ⟨rfl, fun asleep => wake_worker_ne_none asleep (nobody .worker)⟩

/-- A job gets on, or ends. -/
theorem Direct.job (direct : Direct setup s) {who : Who} (stepped : s.jobStep k who = some s') :
    Direct setup s' := by
  obtain ⟨job, held, step⟩ := jobStep_cases stepped
  have member := List.mem_of_getElem? held
  have before := direct.pending job.dth
  have kept (stage : Stage) (plain : stage ≠ .normalize) :
      ∀ other ∈ s.jobs.set k { job with stage },
        other.stage ≠ .normalize ∧ other.dth < setup.cpunum.toNat := by
    intro other listed
    rcases List.mem_or_eq_of_mem_set listed with old | rfl
    · exact direct.jobs other old
    · exact ⟨plain, direct.running job member⟩
  -- it gets on, and is counted as before
  have onward (stage : Stage) (plain : stage ≠ .normalize)
      (as_before : ∀ j, ({ job with stage } : Job).owing j = job.owing j) :
      Direct setup { s with jobs := s.jobs.set k { job with stage } } := by
    have same (j : ℕ) :
        (s.jobs.set k { job with stage }).countP (Job.owing j) = s.owing j := by
      rw [State.owing, countP_set held, countP_held held, as_before]
    refine direct.of_change job.dth rfl (fun _ _ => rfl) (fun _ _ => rfl) (kept stage plain)
      (fun j _ => same j) ?_ (direct.returned job.dth)
    exact before.trans (congrArg Nat.cast (same job.dth)).symm
  have gone (stage : job.stage = .test ∨ job.stage = .notify) :
      Direct setup { s with jobs := s.jobs.eraseIdx k } := by
    have same (j : ℕ) : (s.jobs.eraseIdx k).countP (Job.owing j) = s.owing j := by
      rw [State.owing, countP_held held]
      rcases stage with stage | stage <;> simp [Job.owing, stage]
    refine direct.of_change job.dth rfl (fun _ _ => rfl) (fun _ _ => rfl)
      (fun other listed => direct.jobs other (List.mem_of_mem_eraseIdx listed))
      (fun j _ => same j) ?_ (direct.returned job.dth)
    exact before.trans (congrArg Nat.cast (same job.dth)).symm
  rcases step with ⟨stage, rfl⟩ | ⟨stage, rfl⟩ | ⟨stage, -, rfl⟩ | ⟨stage, -, rfl⟩ |
    ⟨stage, notified⟩
  · exact onward .index nofun fun j => by rw [Job.owing, Job.owing, stage]; rfl
  · -- the one job that is counted no more
    have fewer : s.owing job.dth =
        (s.jobs.set k { job with stage := .test }).countP (Job.owing job.dth) + 1 := by
      rw [State.owing, countP_set held, countP_held held]
      simp [Job.owing, stage]
    refine direct.of_change job.dth rfl (fun _ _ => rfl)
      (fun j other => Function.update_of_ne other _ _) (kept .test nofun) (fun j other => ?_) ?_
      fun ended => ?_
    · rw [State.owing, State.owing, countP_set held, countP_held held]
      simp [Job.owing, Ne.symm other]
    · show Function.update s.pending job.dth (s.pending job.dth - 1) job.dth +
        (s.workers job.dth).owed =
          ((s.jobs.set k { job with stage := .test }).countP (Job.owing job.dth) : ℕ)
      rw [Function.update_self]
      omega
    · have none := direct.returned job.dth ended
      have noneOwed : (s.workers job.dth).owed = 0 := by
        rw [show s.workers job.dth = .returned from ended]
        rfl
      omega
  · exact onward .notify nofun fun j => by rw [Job.owing, Job.owing, stage]; rfl
  · exact gone (.inl stage)
  · rcases notifyOne_idle notified direct.idle with woken | ⟨rfl, -⟩
    · exact (gone (.inr stage)).wake woken
    · exact gone (.inr stage)

/-- **All that a step can do**, where the network service has nothing to do. -/
theorem step_cases (direct : Direct setup s) (stepped : Loading.step setup s label = some s') :
    (∃ i worker after, i < setup.cpunum.toNat ∧ s.workerStep setup i = some (worker, after) ∧
      s' = { after with workers := Function.update after.workers i worker }) ∨
    (∃ k who, label = .job k who ∧ s.jobStep k who = some s') ∨
    (∃ i, s.wake i .worker = some s') ∨ s' = { s with stopped := true } := by
  cases label with
  | worker j =>
    simp only [Loading.step] at stepped
    split at stepped
    next below =>
      obtain ⟨⟨worker, after⟩, moved, rfl⟩ := Option.map_eq_some_iff.mp stepped
      exact .inl ⟨j, worker, after, below, moved, rfl⟩
    next => cases stepped
  | service =>
    obtain ⟨⟨service, after⟩, served, -⟩ := Option.map_eq_some_iff.mp stepped
    rw [State.serviceStep, direct.idle] at served
    cases served
  | reply k calls =>
    obtain ⟨j, id, held, -, -⟩ := replyStep_cases stepped
    exact absurd rfl (direct.requests _ (List.mem_of_getElem? held))
  | job k who => exact .inr (.inl ⟨k, who, rfl, stepped⟩)
  | spurious j who =>
    cases who with
    | worker => exact .inr (.inr (.inl ⟨j, stepped⟩))
    | service =>
      obtain ⟨id, calls, busy, -⟩ := wake_service_cases stepped
      cases direct.idle.symm.trans busy
  | stop =>
    simp only [Loading.step] at stepped
    split at stepped
    next =>
      cases stepped
      exact .inr (.inr (.inr rfl))
    next => cases stepped

/-- **What one step preserves.** -/
theorem Direct.step (direct : Direct setup s) (plain : setup.normalizes = false)
    (stepped : Loading.step setup s label = some s') : Direct setup s' := by
  rcases step_cases direct stepped with ⟨i, worker, after, below, moved, rfl⟩ |
    ⟨k, who, -, stepped⟩ | ⟨i, woken⟩ | rfl
  · exact direct.worker below plain moved
  · exact direct.job stepped
  · exact direct.wake woken
  · exact ⟨direct.idle, direct.requests, direct.running, direct.pending, direct.returned⟩

/-- **Without a normalisation URL, `pending` counts what is outstanding**, in any run. -/
theorem Direct.of_run (plain : setup.normalizes = false) {meets : State → Label → Prop}
    {labels : List Label} (run : Run (Loading.step setup) meets setup.start labels s) :
    Direct setup s :=
  run.invariant (Direct setup) (.start setup) fun _ _ _ kept _ stepped => kept.step plain stepped

end Direct

end Wookie.Loading
