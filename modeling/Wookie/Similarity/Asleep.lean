/-
**Workers that sleep forever.**

A worker tests `pending`, locks its mutex and waits; a completion decrements `pending`, tests it and
notifies, without the mutex. A notification between the test and the wait is lost, and there may be
no other one.

* `Hope.step` — a worker on its way to sleep, or asleep, has a job under way, where the last one
  does not end between its test and its wait.
* `stuck_of_lost` — where it does, the worker sleeps forever.
* `exists_stuck` — a worker with a document that parses can get there.
* `never_stuck_iff` — **no worker sleeps forever**, in any run, if and only if there is no worker or
  no document that parses; and, without a normalisation URL, in any run in which no notification is
  lost.
* `sleeps_forever` — one document.
-/

import Wookie.Similarity.Outstanding

namespace Wookie.Loading

open Library

/-! ### What can still notify -/

/-- **Something is under way** that can lead to a notification of the worker: a job, or the reply to
a request that the network service handles, unless it is asleep itself. -/
def Outstanding (s : State) (i : ℕ) : Prop :=
  (∃ job ∈ s.jobs, job.dth = i) ∨
    ∃ id calls sending, s.service = .busy i id calls sending ∧ sending ≠ some (.sleep .asleep)

/-- **The worker sleeps forever**, but for spurious wake-ups. -/
def Stuck (s : State) (i : ℕ) : Prop := (s.workers i).Asleep ∧ ¬ Outstanding s i

/-- **No worker ever does**, in `pack_and_send` or at its end. -/
def NeverStuck (setup : Setup) : Prop :=
  ∀ labels s, Run (step setup) AnyStep setup.start labels s → ∀ i, ¬ Stuck s i

/-- **No notification is lost**: a completion that notifies between a worker's test of `pending` and
its wait is not the last job under way for the worker. -/
def NotLost (s : State) : Label → Prop
  | .job k _ => ∀ job, s.jobs[k]? = some job → job.stage = .notify →
      (s.workers job.dth).Window → ∃ other ∈ s.jobs.eraseIdx k, other.dth = job.dth
  | _ => True

/-! ### Where no notification is lost -/

section Hope

variable {setup : Setup} {s s' : State} {i k : ℕ} {label : Label}

/-- **A worker on its way to sleep, or asleep, has a job under way.** -/
def Hope (s : State) : Prop := ∀ i, (s.workers i).Hoping → ∃ job ∈ s.jobs, job.dth = i

theorem owed_of_hoping {worker : Worker} (hoping : worker.Hoping) : worker.owed = 0 := by
  cases worker with
  | send send rest =>
    cases send with
    | increment => exact absurd hoping (not_hoping rfl)
    | _ => rfl
  | _ => rfl

theorem not_hoping_woken {worker : Worker} (woken : worker.sleeping = some .woken) :
    ¬ worker.Hoping := by
  rintro ⟨phase, at_, hoping⟩
  cases woken.symm.trans at_
  exact Sleep.not_hoping_woken hoping

/-- A count that is not zero. -/
theorem exists_job_of_pending (direct : Direct setup s) (hoping : (s.workers i).owed = 0)
    (some : s.pending i ≠ 0) : ∃ job ∈ s.jobs, job.dth = i ∧ job.owing i = true := by
  have counted := direct.pending i
  have positive : 0 < s.owing i := by omega
  obtain ⟨job, listed, owing⟩ := List.countP_pos_iff.mp positive
  exact ⟨job, listed, by simpa using (Bool.and_eq_true_iff.mp owing).1, owing⟩

/-- The other jobs are under way. -/
theorem mem_eraseIdx_of_ne {job other : Job} (held : s.jobs[k]? = some job)
    (listed : other ∈ s.jobs) (differs : other ≠ job) : other ∈ s.jobs.eraseIdx k := by
  obtain ⟨inside, rfl⟩ := List.getElem?_eq_some_iff.mp held
  have among := (List.getElem_cons_eraseIdx_perm inside).mem_iff.mpr listed
  exact (List.mem_cons.mp among).resolve_left differs

/-- A worker moves on. -/
theorem Hope.worker (hope : Hope s) (direct : Direct setup s) {worker : Worker}
    (plain : setup.normalizes = false) (stepped : s.workerStep setup i = some (worker, s')) :
    Hope { s' with workers := Function.update s'.workers i worker } := by
  intro j hoping
  rcases workerStep_cases plain stepped with ⟨holder, rfl, quiet⟩ |
    ⟨id, rest, at_, rfl, rfl⟩ | ⟨rest, at_, rfl, rfl⟩
  · change (Function.update s.workers i worker j).Hoping at hoping
    by_cases own : j = i
    · subst own
      rw [Function.update_self] at hoping
      rcases quiet.hoping hoping with before | some
      · exact hope j before
      · have owed := quiet.owed.symm.trans (owed_of_hoping hoping)
        obtain ⟨job, listed, same, -⟩ := exists_job_of_pending direct owed some
        exact ⟨job, listed, same⟩
    · rw [Function.update_of_ne own] at hoping
      exact hope j hoping
  · change (Function.update s.workers i (.send .increment rest) j).Hoping at hoping
    by_cases own : j = i
    · rw [own, Function.update_self] at hoping
      exact absurd hoping (not_hoping rfl)
    · rw [Function.update_of_ne own] at hoping
      obtain ⟨job, listed, same⟩ := hope j hoping
      exact ⟨job, List.mem_append_left _ listed, same⟩
  · change (Function.update s.workers i (.send .test rest) j).Hoping at hoping
    by_cases own : j = i
    · rw [own, Function.update_self] at hoping
      exact absurd hoping (not_hoping rfl)
    · rw [Function.update_of_ne own] at hoping
      exact hope j hoping

/-- A worker wakes up. -/
theorem Hope.wake (hope : ∀ j ≠ i, (s.workers j).Hoping → ∃ job ∈ s.jobs, job.dth = j)
    (woken : s.wake i .worker = some s') : Hope s' := by
  obtain ⟨worker, rfl, -, awake, -⟩ := wake_worker_cases woken
  intro j hoping
  change (Function.update s.workers i worker j).Hoping at hoping
  by_cases own : j = i
  · rw [own, Function.update_self] at hoping
    exact absurd hoping (not_hoping_woken awake)
  · rw [Function.update_of_ne own] at hoping
    exact hope j own hoping

/-- A job gets on, or ends. -/
theorem Hope.job (hope : Hope s) (direct : Direct setup s) {who : Who}
    (notLost : NotLost s (.job k who)) (stepped : s.jobStep k who = some s') : Hope s' := by
  obtain ⟨job, held, step⟩ := jobStep_cases stepped
  have changed (stage : Stage) (j : ℕ) (hoping : (s.workers j).Hoping) :
      ∃ other ∈ s.jobs.set k { job with stage }, other.dth = j := by
    obtain ⟨other, listed, own⟩ := hope j hoping
    have inside := (List.getElem?_eq_some_iff.mp held).1
    have among := (List.set_perm_cons_eraseIdx inside { job with stage }).symm.subset
    by_cases same : other = job
    · exact ⟨_, among List.mem_cons_self, by rw [← own, same]⟩
    · exact ⟨other, among (List.mem_cons_of_mem _ (mem_eraseIdx_of_ne held listed same)), own⟩
  have others (j : ℕ) (other : j ≠ job.dth) (hoping : (s.workers j).Hoping) :
      ∃ other ∈ s.jobs.eraseIdx k, other.dth = j := by
    obtain ⟨before, listed, own⟩ := hope j hoping
    have differs : before ≠ job := by
      rintro rfl
      exact other own.symm
    exact ⟨before, mem_eraseIdx_of_ne held listed differs, own⟩
  rcases step with ⟨-, rfl⟩ | ⟨-, rfl⟩ | ⟨-, -, rfl⟩ | ⟨stage, many, rfl⟩ | ⟨stage, notified⟩
  · exact changed .index
  · exact changed .test
  · exact changed .notify
  · -- it does not notify: there are others that are counted
    intro j hoping
    by_cases own : j = job.dth
    · subst own
      have enough : s.pending job.dth ≠ 0 := by
        have half : maxPending / 2 = 50 := rfl
        omega
      obtain ⟨other, listed, same, owing⟩ :=
        exists_job_of_pending direct (owed_of_hoping hoping) enough
      refine ⟨other, mem_eraseIdx_of_ne held listed fun equal => ?_, same⟩
      rw [equal] at owing
      simp [Job.owing, stage] at owing
    · exact others j own hoping
  · rcases notifyOne_idle notified direct.idle with woken | ⟨rfl, awake⟩
    · exact Hope.wake others woken
    · intro j hoping
      by_cases own : j = job.dth
      · subst own
        exact notLost job held stage (hoping.cases.resolve_right awake)
      · exact others j own hoping

/-- **What one step preserves**, if no notification is lost. -/
theorem Hope.step (hope : Hope s) (direct : Direct setup s) (plain : setup.normalizes = false)
    (notLost : NotLost s label) (stepped : Loading.step setup s label = some s') : Hope s' := by
  rcases step_cases direct stepped with ⟨i, worker, after, -, moved, rfl⟩ |
    ⟨k, who, rfl, stepped⟩ | ⟨i, woken⟩ | rfl
  · exact hope.worker direct plain moved
  · exact hope.job direct notLost stepped
  · exact Hope.wake (fun j _ => hope j) woken
  · exact hope

/-- **Where no notification is lost, no worker sleeps forever**, without a normalisation URL. -/
theorem not_stuck_of_notLost (plain : setup.normalizes = false) {labels : List Label}
    (run : Run (Loading.step setup) NotLost setup.start labels s) (i : ℕ) : ¬ Stuck s i := by
  have kept : Direct setup s ∧ Hope s :=
    run.invariant (fun s => Direct setup s ∧ Hope s)
      ⟨.start setup, fun _ hoping => absurd hoping (not_hoping rfl)⟩
      fun _ _ _ ⟨direct, hope⟩ notLost stepped =>
        ⟨direct.step plain stepped, hope.step direct plain notLost stepped⟩
  rintro ⟨asleep, nothing⟩
  exact nothing (.inl (kept.2 i asleep.hoping))

end Hope

/-! ### Where one is lost -/

section Lost

variable {setup : Setup} {s s' : State} {i k : ℕ} {label : Label}

/-- A state with the property can be reached. -/
def Leads (setup : Setup) (s : State) (holds : State → Prop) : Prop :=
  ∃ labels s', Run (step setup) AnyStep s labels s' ∧ holds s'

theorem Leads.refl {holds : State → Prop} (here : holds s) : Leads setup s holds :=
  ⟨[], s, .nil, here⟩

theorem Leads.step {holds : State → Prop} (label : Label)
    (stepped : Loading.step setup s label = some s') (later : Leads setup s' holds) :
    Leads setup s holds := by
  obtain ⟨labels, after, run, there⟩ := later
  exact ⟨label :: labels, after, .cons_run trivial stepped run, there⟩

theorem Leads.trans {first second : State → Prop} (leads : Leads setup s first)
    (later : ∀ s, first s → Leads setup s second) : Leads setup s second := by
  obtain ⟨labels, middle, run, there⟩ := leads
  obtain ⟨more, after, run', there'⟩ := later middle there
  exact ⟨labels ++ more, after, run.trans run', there'⟩

/-- **Who holds a worker's mutex is the worker**, and about to release it. -/
def Locked (s : State) : Prop := ∀ i, s.lock i ≠ none → (s.workers i).Holding

theorem Locked.wake (locked : Locked s) (woken : s.wake i .worker = some s') : Locked s' := by
  obtain ⟨worker, rfl, asleep, -⟩ := wake_worker_cases woken
  intro j held
  show (Function.update s.workers i worker j).Holding
  by_cases own : j = i
  · subst own
    obtain ⟨phase, at_, holding⟩ := locked j held
    cases asleep.symm.trans at_
    exact absurd holding Sleep.not_holding_asleep
  · rw [Function.update_of_ne own]
    exact locked j held

theorem Locked.worker (locked : Locked s) {worker : Worker} (plain : setup.normalizes = false)
    (stepped : s.workerStep setup i = some (worker, s')) :
    Locked { s' with workers := Function.update s'.workers i worker } := by
  intro j held
  have unlocked (awake : (s.workers i).sleeping = none) : s.lock i = none := by
    by_contra held
    exact not_holding awake (locked i held)
  rcases workerStep_cases plain stepped with ⟨holder, rfl, quiet⟩ |
    ⟨id, rest, at_, rfl, rfl⟩ | ⟨rest, at_, rfl, rfl⟩
  · change Function.update s.lock i holder j ≠ none at held
    show (Function.update s.workers i worker j).Holding
    by_cases own : j = i
    · subst own
      rw [Function.update_self] at held ⊢
      rcases quiet.holding held with holding | ⟨before, notHolding⟩
      · exact holding
      · exact absurd (locked j before) notHolding
    · rw [Function.update_of_ne own] at held ⊢
      exact locked j held
  all_goals
    show (Function.update s.workers i _ j).Holding
    by_cases own : j = i
    · rw [own] at held
      exact absurd (unlocked (by rw [at_]; rfl)) held
    · rw [Function.update_of_ne own]
      exact locked j held

/-- **What one step preserves.** -/
theorem Locked.step (locked : Locked s) (direct : Direct setup s) (plain : setup.normalizes = false)
    (stepped : Loading.step setup s label = some s') : Locked s' := by
  rcases step_cases direct stepped with ⟨i, worker, after, -, moved, rfl⟩ |
    ⟨k, who, -, stepped⟩ | ⟨i, woken⟩ | rfl
  · exact locked.worker plain moved
  · obtain ⟨job, held, step⟩ := jobStep_cases stepped
    rcases step with ⟨-, rfl⟩ | ⟨-, rfl⟩ | ⟨-, -, rfl⟩ | ⟨-, -, rfl⟩ | ⟨-, notified⟩
    · exact locked
    · exact locked
    · exact locked
    · exact locked
    · have ended : Locked { s with jobs := s.jobs.eraseIdx k } := locked
      rcases notifyOne_idle notified direct.idle with woken | ⟨rfl, -⟩
      · exact ended.wake woken
      · exact ended
  · exact locked.wake woken
  · exact locked

/-- **A sleeper moves on.** -/
theorem step_sleeping (below : i < setup.cpunum.toNat) {phase next : Sleep} {holder : Option Who}
    (at_ : (s.workers i).sleeping = some phase)
    (moved : phase.step .worker (s.lock i) = some (some next, holder)) :
    ∃ worker, worker.sleeping = some next ∧ step setup s (.worker i) = some { s with
      lock := Function.update s.lock i holder
      workers := Function.update s.workers i worker } := by
  unfold Worker.sleeping at at_
  split at at_
  next own rest place =>
    cases at_
    refine ⟨.send (.sleep next) rest, rfl, ?_⟩
    simp [step, below, State.workerStep, place, State.sendStep, State.sleepStep, moved]
  next own place =>
    cases at_
    refine ⟨.sleep next, rfl, ?_⟩
    simp [step, below, State.workerStep, place, State.sleepStep, moved]
  next => cases at_

/-- **A worker between its test and its wait**, with nothing under way, sleeps forever. -/
theorem leads_stuck (below : i < setup.cpunum.toNat) (window : (s.workers i).Window)
    (locked : s.lock i ≠ none → (s.workers i).Holding) (nothing : ¬ Outstanding s i) :
    Leads setup s (Stuck · i) := by
  have waits {s : State} (at_ : (s.workers i).sleeping = some .wait) (nothing : ¬ Outstanding s i) :
      Leads setup s (Stuck · i) := by
    obtain ⟨worker, asleep, stepped⟩ :=
      step_sleeping below at_ (Sleep.step_wait .worker (s.lock i))
    refine .step _ stepped (.refl ⟨?_, nothing⟩)
    show (Function.update s.workers i worker i).Asleep
    rwa [Function.update_self]
  obtain ⟨phase, at_, rfl | rfl⟩ := window
  · have free : s.lock i = none := by
      by_contra held
      obtain ⟨phase, place, holding⟩ := locked held
      cases Option.some.inj (at_.symm.trans place)
      exact Sleep.not_holding_lock holding
    obtain ⟨worker, waiting, stepped⟩ :=
      step_sleeping below at_ (by rw [free]; exact Sleep.step_lock Who.worker)
    refine .step _ stepped (waits ?_ nothing)
    show (Function.update s.workers i worker i).sleeping = some .wait
    rwa [Function.update_self]
  · exact waits at_ nothing

/-- **Where a notification is lost, a worker can end up sleeping forever**, without a normalisation
URL. -/
theorem stuck_of_lost (plain : setup.normalizes = false) {labels : List Label}
    (run : Run (Loading.step setup) AnyStep setup.start labels s) (lost : ¬ NotLost s label)
    (stepped : Loading.step setup s label = some s') : ∃ i, Leads setup s' (Stuck · i) := by
  have kept : Direct setup s ∧ Locked s :=
    run.invariant (fun s => Direct setup s ∧ Locked s)
      ⟨.start setup, fun _ held => absurd rfl held⟩
      fun _ _ _ ⟨direct, locked⟩ _ stepped =>
        ⟨direct.step plain stepped, locked.step direct plain stepped⟩
  obtain ⟨direct, locked⟩ := kept
  cases label with
  | job k who =>
    obtain ⟨job, lost⟩ := not_forall.mp lost
    simp only [Classical.not_imp, not_exists, not_and] at lost
    obtain ⟨held, stage, window, last⟩ := lost
    have below := direct.running job (List.mem_of_getElem? held)
    have notAsleep : ¬ (s.workers job.dth).Asleep := by
      intro asleep
      obtain ⟨phase, at_, inWindow⟩ := window
      cases asleep.symm.trans at_
      exact Sleep.not_window_asleep inWindow
    obtain ⟨other, held', step⟩ := jobStep_cases stepped
    cases held.symm.trans held'
    have notified : State.notifyOne { s with jobs := s.jobs.eraseIdx k } job.dth who = some s' := by
      simpa [stage] using step
    refine ⟨job.dth, ?_⟩
    rcases notifyOne_idle notified direct.idle with woken | ⟨rfl, -⟩
    · obtain ⟨-, -, asleep, -⟩ := wake_worker_cases woken
      exact absurd asleep notAsleep
    · refine leads_stuck below window (locked job.dth) ?_
      rintro (⟨other, listed, own⟩ | ⟨id, calls, sending, busy, -⟩)
      · exact last other listed own
      · cases direct.idle.symm.trans busy
  | _ => exact absurd trivial lost

end Lost

/-! ### A run that loses the only one -/

section Losing

variable {setup : Setup} {s : State} {i : ℕ} {id : ℤ} {rest : List ℤ} {worker : Worker}
  {pending : ℤ} {jobs : List Job}

/-- Where the worker is, and all that is under way. -/
structure At (s : State) (i : ℕ) (worker : Worker) (pending : ℤ) (jobs : List Job) : Prop where
  worker : s.workers i = worker
  pending : s.pending i = pending
  jobs : s.jobs = jobs
  service : s.service = .idle
  lock : s.lock i = none
  running : s.stopped = false

theorem wake_worker_eq_none (awake : ¬ (s.workers i).Asleep) : s.wake i .worker = none := by
  by_contra woken
  obtain ⟨after, woken⟩ := Option.ne_none_iff_exists'.mp woken
  obtain ⟨-, -, asleep, -⟩ := wake_worker_cases woken
  exact awake asleep

/-- Nobody is asleep. -/
theorem notifyOne_nobody (awake : ¬ (s.workers i).Asleep) (idle : s.service = .idle) :
    s.notifyOne i .worker = some s := by
  have service : s.wake i .service = none := by simp [State.wake, idle]
  rw [State.notifyOne, wake_worker_eq_none awake, service]
  rfl

/-- A document that does not parse. -/
theorem At.skip (at_ : At s i (.next (id :: rest)) pending jobs) (below : i < setup.cpunum.toNat)
    (unparsed : setup.parses id = false) :
    Leads setup s (At · i (.next rest) pending jobs) := by
  have stepped : step setup s (.worker i) =
      some { s with workers := Function.update s.workers i (.next rest) } := by
    simp [step, below, State.workerStep, at_.worker, unparsed]
  exact .step _ stepped (.refl ⟨Function.update_self _ _ _, at_.pending, at_.jobs, at_.service,
    at_.lock, at_.running⟩)

/-- `pack_and_send`, with nothing else under way. -/
theorem At.write (at_ : At s i (.next (id :: rest)) 0 []) (below : i < setup.cpunum.toNat)
    (plain : setup.normalizes = false) (parsed : setup.parses id = true) :
    Leads setup s (At · i (.next rest) 1 [⟨i, id, .write⟩]) := by
  have first : step setup s (.worker i) = some { s with
      workers := Function.update s.workers i (.send (.write id) rest) } := by
    simp [step, below, State.workerStep, at_.worker, parsed, plain]
  have second : step setup { s with
      workers := Function.update s.workers i (.send (.write id) rest) } (.worker i) =
      some { s with
        workers := Function.update s.workers i (.send .increment rest)
        jobs := [⟨i, id, .write⟩] } := by
    simp [step, below, State.workerStep, State.sendStep, at_.jobs]
  have third : step setup { s with
      workers := Function.update s.workers i (.send .increment rest)
      jobs := [⟨i, id, .write⟩] } (.worker i) =
      some { s with
        workers := Function.update s.workers i (.send .test rest)
        jobs := [⟨i, id, .write⟩]
        pending := Function.update s.pending i 1 } := by
    simp [step, below, State.workerStep, State.sendStep, at_.pending]
  have fourth : step setup { s with
      workers := Function.update s.workers i (.send .test rest)
      jobs := [⟨i, id, .write⟩]
      pending := Function.update s.pending i 1 } (.worker i) =
      some { s with
        workers := Function.update s.workers i (.next rest)
        jobs := [⟨i, id, .write⟩]
        pending := Function.update s.pending i 1 } := by
    simp [step, below, State.workerStep, State.sendStep, maxPending]
  exact .step _ first (.step _ second (.step _ third (.step _ fourth (.refl
    ⟨Function.update_self _ _ _, Function.update_self _ _ _, rfl, at_.service, at_.lock,
      at_.running⟩))))

/-- **The only job comes to its end**, and nobody is asleep. -/
theorem At.complete (at_ : At s i worker 1 [⟨i, id, .write⟩]) (awake : ¬ worker.Asleep) :
    Leads setup s (At · i worker 0 []) := by
  have first : step setup s (.job 0 .worker) = some { s with jobs := [⟨i, id, .index⟩] } := by
    simp [step, State.jobStep, at_.jobs]
  have second : step setup { s with jobs := [⟨i, id, .index⟩] } (.job 0 .worker) = some { s with
      jobs := [⟨i, id, .test⟩]
      pending := Function.update s.pending i 0 } := by
    simp [step, State.jobStep, at_.pending]
  have third : step setup { s with
      jobs := [⟨i, id, .test⟩]
      pending := Function.update s.pending i 0 } (.job 0 .worker) = some { s with
        jobs := [⟨i, id, .notify⟩]
        pending := Function.update s.pending i 0 } := by
    simp [step, State.jobStep, maxPending]
  have fourth : step setup { s with
      jobs := [⟨i, id, .notify⟩]
      pending := Function.update s.pending i 0 } (.job 0 .worker) = some { s with
        jobs := []
        pending := Function.update s.pending i 0 } :=
    notifyOne_nobody (at_.worker ▸ awake) at_.service
  exact .step _ first (.step _ second (.step _ third (.step _ fourth (.refl
    ⟨at_.worker, Function.update_self _ _ _, rfl, at_.service, at_.lock, at_.running⟩))))

/-- `send_normalize_request`. -/
theorem At.ask (at_ : At s i (.next (id :: rest)) 0 []) (below : i < setup.cpunum.toNat)
    (normalizes : setup.normalizes = true) (parsed : setup.parses id = true) :
    Leads setup s (At · i (.next rest) 0 [⟨i, id, .normalize⟩]) := by
  have stepped : step setup s (.worker i) = some { s with
      workers := Function.update s.workers i (.next rest)
      jobs := [⟨i, id, .normalize⟩] } := by
    simp [step, below, State.workerStep, at_.worker, parsed, normalizes, at_.jobs]
  exact .step _ stepped (.refl ⟨Function.update_self _ _ _, at_.pending, rfl, at_.service,
    at_.lock, at_.running⟩)

/-- A reply with no value in it. -/
theorem At.dismiss (at_ : At s i worker 0 [⟨i, id, .normalize⟩]) :
    Leads setup s (At · i worker 0 []) := by
  have first : step setup s (.reply 0 0) =
      some { s with jobs := [], service := .busy i id 0 none } := by
    simp [step, State.replyStep, at_.jobs, at_.service, at_.running]
  have second : step setup { s with jobs := [], service := .busy i id 0 none } .service =
      some { s with jobs := [], service := .idle } := by
    simp [step, State.serviceStep]
  exact .step _ first (.step _ second (.refl
    ⟨at_.worker, at_.pending, rfl, rfl, at_.lock, at_.running⟩))

/-- A reply with one value: `pack_and_send`, by the network service. -/
theorem At.answer (at_ : At s i worker 0 [⟨i, id, .normalize⟩]) :
    Leads setup s (At · i worker 1 [⟨i, id, .write⟩]) := by
  have first : step setup s (.reply 0 1) =
      some { s with jobs := [], service := .busy i id 1 none } := by
    simp [step, State.replyStep, at_.jobs, at_.service, at_.running]
  have second : step setup { s with jobs := [], service := .busy i id 1 none } .service =
      some { s with jobs := [], service := .busy i id 0 (some (.write id)) } := by
    simp [step, State.serviceStep]
  have third : step setup { s with
      jobs := []
      service := .busy i id 0 (some (.write id)) } .service = some { s with
        jobs := [⟨i, id, .write⟩]
        service := .busy i id 0 (some .increment) } := by
    simp [step, State.serviceStep, State.sendStep]
  have fourth : step setup { s with
      jobs := [⟨i, id, .write⟩]
      service := .busy i id 0 (some .increment) } .service = some { s with
        jobs := [⟨i, id, .write⟩]
        service := .busy i id 0 (some .test)
        pending := Function.update s.pending i 1 } := by
    simp [step, State.serviceStep, State.sendStep, at_.pending]
  have fifth : step setup { s with
      jobs := [⟨i, id, .write⟩]
      service := .busy i id 0 (some .test)
      pending := Function.update s.pending i 1 } .service = some { s with
        jobs := [⟨i, id, .write⟩]
        service := .busy i id 0 none
        pending := Function.update s.pending i 1 } := by
    simp [step, State.serviceStep, State.sendStep, maxPending]
  have sixth : step setup { s with
      jobs := [⟨i, id, .write⟩]
      service := .busy i id 0 none
      pending := Function.update s.pending i 1 } .service = some { s with
        jobs := [⟨i, id, .write⟩]
        service := .idle
        pending := Function.update s.pending i 1 } := by
    simp [step, State.serviceStep]
  exact .step _ first (.step _ second (.step _ third (.step _ fourth (.step _ fifth (.step _ sixth
    (.refl ⟨at_.worker, Function.update_self _ _ _, rfl, rfl, at_.lock, at_.running⟩))))))

/-- What is under way for the document that was taken last: its write, or its request. -/
def Taken (setup : Setup) (s : State) (i : ℕ) (rest : List ℤ) : Prop :=
  ∃ id, if setup.normalizes then At s i (.next rest) 0 [⟨i, id, .normalize⟩]
    else At s i (.next rest) 1 [⟨i, id, .write⟩]

/-- A document is taken. -/
theorem At.take (at_ : At s i (.next (id :: rest)) 0 []) (below : i < setup.cpunum.toNat)
    (parsed : setup.parses id = true) : Leads setup s (Taken setup · i rest) := by
  cases normalizes : setup.normalizes with
  | true =>
    refine (at_.ask below normalizes parsed).trans fun s after => .refl ⟨id, ?_⟩
    rwa [if_pos normalizes]
  | false =>
    refine (at_.write below normalizes parsed).trans fun s after => .refl ⟨id, ?_⟩
    rwa [if_neg (by rw [normalizes]; exact Bool.false_ne_true)]

/-- The document that was taken is done with. -/
theorem Taken.clear (taken : Taken setup s i rest) :
    Leads setup s (At · i (.next rest) 0 []) := by
  obtain ⟨id, at_⟩ := taken
  split at at_
  · exact at_.dismiss
  · exact at_.complete (by rintro ⟨⟩)

/-- Documents that do not parse. -/
theorem Taken.skip (taken : Taken setup s i (id :: rest)) (below : i < setup.cpunum.toNat)
    (unparsed : setup.parses id = false) : Leads setup s (Taken setup · i rest) := by
  obtain ⟨other, at_⟩ := taken
  split at at_
  next normalizes =>
    refine (at_.skip below unparsed).trans fun s after => .refl ⟨other, ?_⟩
    rwa [if_pos normalizes]
  next plain =>
    refine (at_.skip below unparsed).trans fun s after => .refl ⟨other, ?_⟩
    rwa [if_neg plain]

/-- **The worker gets to its end** with one document under way, if any of them parses. -/
theorem leads_taken (below : i < setup.cpunum.toNat) (rest : List ℤ) :
    (∀ s, Taken setup s i rest → Leads setup s (Taken setup · i [])) ∧
      ∀ s, At s i (.next rest) 0 [] → (∃ id ∈ rest, setup.parses id = true) →
        Leads setup s (Taken setup · i []) := by
  induction rest with
  | nil =>
    refine ⟨fun s taken => .refl taken, ?_⟩
    rintro s - ⟨id, listed, -⟩
    cases listed
  | cons id rest ih =>
    obtain ⟨ofTaken, ofNone⟩ := ih
    cases parsed : setup.parses id with
    | true =>
      refine ⟨fun s taken => ?_, fun s at_ _ => (at_.take below parsed).trans ofTaken⟩
      exact taken.clear.trans fun s at_ => (at_.take below parsed).trans ofTaken
    | false =>
      refine ⟨fun s taken => (taken.skip below parsed).trans ofTaken, ?_⟩
      rintro s at_ ⟨other, listed, parsed'⟩
      refine (at_.skip below parsed).trans fun s after => ofNone s after ⟨other, ?_, parsed'⟩
      refine (List.mem_cons.mp listed).resolve_left ?_
      rintro rfl
      rw [parsed] at parsed'
      cases parsed'

/-- **At its end it loses the only notification.** -/
theorem leads_stuck_of_one (below : i < setup.cpunum.toNat)
    (at_ : At s i (.next []) 1 [⟨i, id, .write⟩]) : Leads setup s (Stuck · i) := by
  have first : step setup s (.worker i) =
      some { s with workers := Function.update s.workers i .test } := by
    simp [step, below, State.workerStep, at_.worker]
  have second : step setup { s with workers := Function.update s.workers i .test } (.worker i) =
      some { s with workers := Function.update s.workers i (.sleep .lock) } := by
    simp [step, below, State.workerStep, at_.pending]
  have tested : At { s with workers := Function.update s.workers i (.sleep .lock) } i
      (.sleep .lock) 1 [⟨i, id, .write⟩] :=
    ⟨Function.update_self _ _ _, at_.pending, at_.jobs, at_.service, at_.lock, at_.running⟩
  have awake : ¬ (Worker.sleep .lock).Asleep := by rintro ⟨⟩
  refine .step _ first (.step _ second ((tested.complete awake).trans fun s after => ?_))
  refine leads_stuck below ?_ (fun held => absurd after.lock held) ?_
  · rw [after.worker]
    exact ⟨.lock, rfl, .inl rfl⟩
  · rintro (⟨job, listed, -⟩ | ⟨id, calls, sending, busy, -⟩)
    · rw [after.jobs] at listed
      cases listed
    · cases after.service.symm.trans busy

/-- **A worker with a document that parses can end up sleeping forever.** -/
theorem exists_stuck (below : i < setup.cpunum.toNat)
    (some : ∃ id ∈ setup.documentsOf i, setup.parses id = true) :
    Leads setup setup.start (Stuck · i) := by
  have start : At setup.start i (.next (setup.documentsOf i)) 0 [] :=
    ⟨rfl, rfl, rfl, rfl, rfl, rfl⟩
  refine ((leads_taken below _).2 _ start some).trans fun s taken => ?_
  obtain ⟨id, at_⟩ := taken
  split at at_
  · exact at_.answer.trans fun s answered => leads_stuck_of_one below answered
  · exact leads_stuck_of_one below at_

theorem not_neverStuck (workers : 0 < setup.cpunum) (listed : id ∈ setup.docIds)
    (parsed : setup.parses id = true) : ¬ NeverStuck setup := by
  intro never
  obtain ⟨i, below, own⟩ := exists_mem_documentsOf workers listed
  obtain ⟨labels, s, run, stuck⟩ := exists_stuck below ⟨id, own, parsed⟩
  exact never labels s run i stuck

end Losing

/-- **No worker sleeps forever**, in any run, if and only if there is no worker or no document that
parses. Without a normalisation URL no worker does so in a run in which no notification is lost; and
where one is lost, a worker can end up so. -/
theorem never_stuck_iff (setup : Setup) :
    (NeverStuck setup ↔
      setup.cpunum ≤ 0 ∨ ∀ id ∈ setup.docIds, setup.parses id = false) ∧
    (setup.normalizes = false →
      (∀ labels s, Run (step setup) NotLost setup.start labels s → ∀ i, ¬ Stuck s i) ∧
      ∀ labels s label s', Run (step setup) AnyStep setup.start labels s → ¬ NotLost s label →
        step setup s label = some s' → ∃ i, Leads setup s' (Stuck · i)) := by
  refine ⟨⟨fun never => ?_, fun none labels s run i => ?_⟩, fun plain =>
    ⟨fun _ _ run => not_stuck_of_notLost plain run,
      fun _ _ _ _ run lost stepped => stuck_of_lost plain run lost stepped⟩⟩
  · by_contra wrong
    obtain ⟨workers, some⟩ := not_or.mp wrong
    obtain ⟨id, parsed⟩ := not_forall.mp some
    obtain ⟨listed, parsed⟩ := Classical.not_imp.mp parsed
    exact not_neverStuck (by omega) listed (eq_true_of_ne_false parsed) never
  · have unparsed : ∀ id ∈ setup.documentsOf i, setup.parses id = false := by
      intro id listed
      rcases none with none | none
      · rw [documentsOf_of_not_pos none] at listed
        cases listed
      · exact none id (mem_docIds_of_mem_documentsOf listed)
    rintro ⟨asleep, -⟩
    rcases (NoWork.of_run unparsed run).worker with ⟨rest, at_, -⟩ | at_ | at_ <;>
      rw [at_] at asleep <;> cases asleep

/-- **One document**: its worker misses the only notification. -/
theorem sleeps_forever : ¬ NeverStuck ⟨[7], fun _ => true, false, 1⟩ :=
  not_neverStuck Int.zero_lt_one List.mem_cons_self rfl

end Wookie.Loading
