/-
**Loading documents: `loader::add_documents` of `elliptics_parse_docs.cpp`.**

Each worker goes through its share of the documents. A parsed document is written, then its index is
updated, each by a call that is completed later; where there is a normalisation URL a request comes
first, and one thread, the network service, handles all the replies. `pending` counts the documents
of a worker between the write and the last completion, and the worker sleeps on a condition variable
while there are too many of them, or at the end any.

What is under way for a document is a `Job`. A step is one atomic action of one thread, and the
completions are threads of their own: they decrement, test and notify without the lock.
-/

import Mathlib.Data.List.Perm.Basic
import Mathlib.Logic.Function.Basic
import Wookie.Library.Monitor
import Wookie.Library.Pool
import Wookie.Library.Stride

namespace Wookie.Loading

open Library

/-! ### Where the threads are -/

/-- What the loader was called with. -/
structure Setup where
  /-- `m_doc_ids` -/
  docIds : List ℤ
  /-- The file of the document is read and parsed without an exception. -/
  parses : ℤ → Bool
  /-- `!m_normalize_url.empty()` -/
  normalizes : Bool
  cpunum : ℤ

/-- A thread that calls `pack_and_send` for a worker: the worker, or the network service. -/
inductive Who
  | worker
  | service
  deriving DecidableEq

/-- `pack_and_send`. -/
inductive Send
  /-- About to call `write_data`. -/
  | write (id : ℤ)
  /-- About to do `dth->pending++`. -/
  | increment
  /-- About to test `dth->pending > max_pending`. -/
  | test
  | sleep (sleep : Sleep)
  deriving DecidableEq

/-- `load_documents`. -/
inductive Worker
  /-- At the head of the loop over the documents, with those that are left. -/
  | next (rest : List ℤ)
  | send (send : Send) (rest : List ℤ)
  /-- About to test `dth->pending`. -/
  | test
  | sleep (sleep : Sleep)
  | returned
  deriving DecidableEq

/-- The network service: what its only thread does. -/
inductive Service
  | idle
  /-- `swarm_request_completion` for a document of a worker, with the calls of `pack_and_send` that
  are left, and the current one. -/
  | busy (dth : ℕ) (id : ℤ) (calls : ℕ) (sending : Option Send)

/-- How far the work on a document has got. -/
inductive Stage
  /-- The normalisation request has no reply yet. -/
  | normalize
  /-- The write is not completed yet: then `update_index` is called. -/
  | write
  /-- The index update is not completed yet: then `update_index_completion` is called. -/
  | index
  /-- Behind `dth->pending--`, about to test `dth->pending < max_pending / 2`. -/
  | test
  /-- About to call `notify_one`. -/
  | notify
  deriving DecidableEq

/-- Work that is under way for a document of a worker. -/
structure Job where
  dth : ℕ
  id : ℤ
  stage : Stage
  deriving DecidableEq

/-- The state of the program. `pending` and `lock` are those of the `doc_thread`s. -/
structure State where
  workers : ℕ → Worker
  service : Service
  pending : ℕ → ℤ
  lock : ℕ → Option Who
  jobs : List Job
  /-- `m_service.stop()` was called. -/
  stopped : Bool

/-- `doc_thread::max_pending` -/
def maxPending : ℤ := 100

/-- The documents of a worker: `for (size_t i = dth->id; i < m_doc_ids.size(); i += dth->step)`. -/
def Setup.documentsOf (setup : Setup) (i : ℕ) : List ℤ :=
  (strided setup.docIds.length setup.cpunum.toNat i).map fun k => setup.docIds.getD k 0

def Setup.start (setup : Setup) : State :=
  ⟨fun i => .next (setup.documentsOf i), .idle, fun _ => 0, fun _ => none, [], false⟩

/-! ### The steps -/

/-- A step of a thread that sleeps on the condition variable of a worker. -/
def State.sleepStep (s : State) (i : ℕ) (who : Who) (sleep : Sleep) :
    Option (Option Sleep × State) :=
  (sleep.step who (s.lock i)).map fun (sleep, holder) =>
    (sleep, { s with lock := Function.update s.lock i holder })

/-- A step of `pack_and_send`: where the thread is then, unless it has returned. -/
def State.sendStep (s : State) (i : ℕ) (who : Who) : Send → Option (Option Send × State)
  | .write id => some (some .increment, { s with jobs := s.jobs ++ [⟨i, id, .write⟩] })
  | .increment =>
    some (some .test, { s with pending := Function.update s.pending i (s.pending i + 1) })
  | .test => some (if s.pending i > maxPending then some (.sleep .lock) else none, s)
  | .sleep sleep => (s.sleepStep i who sleep).map fun (sleep, s) => (sleep.map .sleep, s)

/-- A step of `load_documents`. -/
def State.workerStep (setup : Setup) (s : State) (i : ℕ) : Option (Worker × State) :=
  match s.workers i with
  | .next [] => some (.test, s)
  | .next (id :: rest) =>
    if !setup.parses id then some (.next rest, s)
    else if setup.normalizes then
      some (.next rest, { s with jobs := s.jobs ++ [⟨i, id, .normalize⟩] })
    else some (.send (.write id) rest, s)
  | .send send rest => (s.sendStep i .worker send).map fun (send, s) =>
      (send.elim (.next rest) (.send · rest), s)
  | .test => some (if s.pending i ≠ 0 then .sleep .lock else .returned, s)
  | .sleep sleep => (s.sleepStep i .worker sleep).map fun (sleep, s) => (sleep.elim .test .sleep, s)
  | .returned => none

/-- A step of the network service. -/
def State.serviceStep (s : State) : Option (Service × State) :=
  match s.service with
  | .idle => none
  | .busy _ _ 0 none => some (.idle, s)
  | .busy i id (calls + 1) none => some (.busy i id calls (some (.write id)), s)
  | .busy i id calls (some send) => (s.sendStep i .service send).map fun (send, s) =>
      (.busy i id calls send, s)

/-- The thread wakes up, if it is asleep on the condition variable of the worker. -/
def State.wake (s : State) (i : ℕ) : Who → Option State
  | .worker =>
    match s.workers i with
    | .send (.sleep .asleep) rest =>
      some { s with workers := Function.update s.workers i (.send (.sleep .woken) rest) }
    | .sleep .asleep => some { s with workers := Function.update s.workers i (.sleep .woken) }
    | _ => none
  | .service =>
    match s.service with
    | .busy j id calls (some (.sleep .asleep)) =>
      if j = i then some { s with service := .busy j id calls (some (.sleep .woken)) } else none
    | _ => none

/-- `dth->cond.notify_one()`: one of the threads that are asleep wakes up, if any is. -/
def State.notifyOne (s : State) (i : ℕ) (who : Who) : Option State :=
  match s.wake i who with
  | some s => some s
  | none => if (s.wake i .worker).isNone ∧ (s.wake i .service).isNone then some s else none

/-- A job gets on: `update_index`, or a step of `update_index_completion`. -/
def State.jobStep (s : State) (k : ℕ) (who : Who) : Option State :=
  s.jobs[k]?.bind fun job =>
    match job.stage with
    | .normalize => none
    | .write => some { s with jobs := s.jobs.set k { job with stage := .index } }
    | .index => some { s with
        jobs := s.jobs.set k { job with stage := .test }
        pending := Function.update s.pending job.dth (s.pending job.dth - 1) }
    | .test => some { s with
        jobs := if s.pending job.dth < maxPending / 2 then
            s.jobs.set k { job with stage := .notify }
          else s.jobs.eraseIdx k }
    | .notify => State.notifyOne { s with jobs := s.jobs.eraseIdx k } job.dth who

/-- The reply to a request comes in, with so many values for `pack_and_send`. -/
def State.replyStep (s : State) (k calls : ℕ) : Option State :=
  match s.jobs[k]?, s.service, s.stopped with
  | some ⟨i, id, .normalize⟩, .idle, false =>
    some { s with jobs := s.jobs.eraseIdx k, service := .busy i id calls none }
  | _, _, _ => none

/-- All worker threads have returned. -/
def State.AllReturned (setup : Setup) (s : State) : Prop :=
  ∀ i < setup.cpunum.toNat, s.workers i = .returned

instance (setup : Setup) (s : State) : Decidable (s.AllReturned setup) :=
  inferInstanceAs (Decidable (∀ i < setup.cpunum.toNat, s.workers i = .returned))

/-- What happens next. -/
inductive Label
  | worker (i : ℕ)
  | service
  | reply (k calls : ℕ)
  /-- The job at the index; `who` is woken up, if it notifies. -/
  | job (k : ℕ) (who : Who)
  /-- A thread wakes up without a notification. -/
  | spurious (i : ℕ) (who : Who)
  /-- The threads were joined. -/
  | stop

/-- **A step of the program.** -/
def step (setup : Setup) (s : State) : Label → Option State
  | .worker i =>
    if i < setup.cpunum.toNat then
      (s.workerStep setup i).map fun (worker, s) =>
        { s with workers := Function.update s.workers i worker }
    else none
  | .service => s.serviceStep.map fun (service, s) => { s with service }
  | .reply k calls => s.replyStep k calls
  | .job k who => s.jobStep k who
  | .spurious i who => s.wake i who
  | .stop => if s.AllReturned setup then some { s with stopped := true } else none

/-! ### The documents of the workers -/

section Documents

variable {setup : Setup} {i : ℕ}

theorem documentsOf_of_not_pos (none : setup.cpunum ≤ 0) (i : ℕ) : setup.documentsOf i = [] := by
  rw [Setup.documentsOf, Int.toNat_of_nonpos none, strided, if_neg (by simp)]
  rfl

theorem getD_docIds {k : ℕ} (inside : k < setup.docIds.length) :
    setup.docIds.getD k 0 = setup.docIds[k] := by
  rw [List.getD_eq_getElem?_getD, List.getElem?_eq_getElem inside, Option.getD_some]

/-- **Every document belongs to a worker.** -/
theorem exists_mem_documentsOf (some : 0 < setup.cpunum) {id : ℤ} (listed : id ∈ setup.docIds) :
    ∃ i < setup.cpunum.toNat, id ∈ setup.documentsOf i := by
  have workers : 0 < setup.cpunum.toNat := by omega
  obtain ⟨k, inside, rfl⟩ := List.mem_iff_getElem.mp listed
  refine ⟨k % setup.cpunum.toNat, Nat.mod_lt _ workers,
    List.mem_map.mpr ⟨k, ?_, getD_docIds inside⟩⟩
  exact (mem_strided workers).mpr ⟨inside, Nat.mod_le _ _, (Nat.mod_mod _ _).symm⟩

theorem mem_docIds_of_mem_documentsOf {id : ℤ} (listed : id ∈ setup.documentsOf i) :
    id ∈ setup.docIds := by
  by_cases none : setup.cpunum ≤ 0
  · rw [documentsOf_of_not_pos none] at listed
    cases listed
  · obtain ⟨k, taken, rfl⟩ := List.mem_map.mp listed
    obtain ⟨inside, -⟩ := (mem_strided (by omega)).mp taken
    rw [getD_docIds inside]
    exact List.getElem_mem inside

end Documents

end Wookie.Loading
