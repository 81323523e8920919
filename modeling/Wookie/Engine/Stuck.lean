/-
**In-flight entries that stay: the link loop's branches without a request.**

The link loop makes an entry in the in-flight map before it knows whether the URL will be requested.
Only the answer to a request erases it. Where the page cache has no copy, or one of an earlier
generation, a request follows; where it has one of this generation, or one that does not unpack,
none does.

* `debtState` — the protocol of a thread that owes a key its request: from the entry on, up to the
  submission, or to a read that leads to none.
* `Recovers` — the condition on a page-cache read: it leads to a request, or the key has another.
* `Covered` — every in-flight key is requested or owed a request; `Stuck` — it is neither, and stays
  so until `engine::download` is called for it.
* `no_stuck_entries` — **in a run that meets the condition every in-flight key has an outstanding
  request once no thread is at work, and a step that does not leaves a key stuck.**
* `entry_stuck` — two pages that link to one another.
-/

import Wookie.Engine.Requests

namespace Wookie

open Library

variable {Url : Type}

/-- Whether a thread owes the key a request. -/
inductive Debt
  | free
  | owing
  deriving DecidableEq

namespace EngineData

variable (e : EngineData Url)

/-- **The protocol on one URL.** A new entry is owed a request; only who owes it submits one, and a
read that leads to none drops the debt. -/
def debtState (key : Str) : Typestate (@EngineAnswer Url) Debt where
  may φ
    | .eraseInflight _ => False
    | .feed url _ => e.swarm.toString url = key → φ = .owing
    | _ => True
  expects _ _ _ := True
  after φ
    | .insertInflight other _, inserted => if other = key then cond inserted .owing φ else φ
    | .readData other, copy => if other = key ∧ e.requestsAfter copy = false then .free else φ
    | .feed url _, _ => if e.swarm.toString url = key then .free else φ
    | _, _ => φ

/-- The program owes the key nothing, and pays what it comes to owe. -/
abbrev Settles (key : Str) (c : EngineProgram Url Unit) : Prop :=
  Adheres (e.debtState key) (· = .free) (· = .free) .free c

/-- The program submits a request for the key before it ends, unless a read of the key leads to
none. -/
abbrev Owes (key : Str) (c : EngineProgram Url Unit) : Prop :=
  Adheres (e.debtState key) (· = .free) (· = .free) .owing c

variable {e} {key : Str}

/-- The debt after an insertion of the key. -/
theorem after_insertInflight (φ : Debt) (doc : Document) (inserted : Bool) :
    (e.debtState key).after φ (.insertInflight key doc) inserted = cond inserted .owing φ :=
  if_pos rfl

/-! ### `process_reply` settles -/

section Protocol

variable {φ : Debt} {thrown final : Debt → Prop} {α : Type}

theorem adheres_insert {other : Str} {doc : Document} {next : Bool → EngineProgram Url α}
    (rest : ∀ inserted, Adheres (e.debtState key) thrown final
      (if other = key then cond inserted .owing φ else φ) (next inserted)) :
    Adheres (e.debtState key) thrown final φ (.op (.insertInflight other doc) next) :=
  ⟨trivial, fun inserted _ => rest inserted⟩

theorem adheres_read {other : Str} {next : Option DataPointer → EngineProgram Url α}
    (rest : ∀ copy, Adheres (e.debtState key) thrown final
      (if other = key ∧ e.requestsAfter copy = false then .free else φ) (next copy)) :
    Adheres (e.debtState key) thrown final φ (.op (.readData other) next) :=
  ⟨trivial, fun copy _ => rest copy⟩

theorem adheres_feed {url : Url} {doc : Option Document} {next : Unit → EngineProgram Url α}
    (owes : e.swarm.toString url = key → φ = .owing)
    (rest : Adheres (e.debtState key) thrown final
      (if e.swarm.toString url = key then .free else φ) (next ())) :
    Adheres (e.debtState key) thrown final φ (.op (.feed url doc) next) :=
  ⟨owes, fun _ _ => rest⟩

theorem debtState_neutral {data : Str} : Neutral (e.debtState key) data .free where
  time := ⟨trivial, fun _ => rfl⟩
  write _ _ _ := ⟨trivial, fun _ => rfl⟩
  wait _ := ⟨trivial, fun _ => rfl⟩
  processing _ := ⟨trivial, fun _ => rfl⟩
  process _ _ _ := ⟨trivial, fun _ => rfl⟩

/-- The debt of a thread that has just made the entry of a URL. -/
def owed (e : EngineData Url) (key : Str) (requestUrl : Url) : Debt :=
  if e.swarm.toString requestUrl = key then .owing else .free

theorem owed_own {requestUrl : Url} (own : e.swarm.toString requestUrl = key) :
    e.owed key requestUrl = .owing := if_pos own

theorem owed_other {requestUrl : Url} (other : e.swarm.toString requestUrl ≠ key) :
    e.owed key requestUrl = .free := if_neg other

/-- A submission pays. -/
theorem adheres_feed_owed {requestUrl : Url} {doc : Option Document}
    {next : Unit → EngineProgram Url α}
    (rest : Adheres (e.debtState key) thrown final .free (next ())) :
    Adheres (e.debtState key) thrown final (e.owed key requestUrl)
      (.op (.feed requestUrl doc) next) := by
  refine adheres_feed owed_own ?_
  by_cases own : e.swarm.toString requestUrl = key
  · rwa [if_pos own]
  · rwa [if_neg own, owed_other own]

/-- **The read after a new entry**: a request is submitted exactly if the read leads to one. -/
theorem readFinished_adheres (reply : Response Url) (data : Str) (requestUrl : Url)
    (copy : Option DataPointer) :
    Adheres (e.debtState key) (· = .free) (· = .free)
      (if e.swarm.toString requestUrl = key ∧ e.requestsAfter copy = false then .free
        else e.owed key requestUrl) (e.readFinished reply data requestUrl copy) := by
  have leads : e.requestsAfter copy = true →
      (if e.swarm.toString requestUrl = key ∧ e.requestsAfter copy = false then .free
        else e.owed key requestUrl) = e.owed key requestUrl := fun leads =>
    if_neg fun none => by rw [leads] at none; cases none.2
  have ends : e.requestsAfter copy = false →
      (if e.swarm.toString requestUrl = key ∧ e.requestsAfter copy = false then .free
        else e.owed key requestUrl) = .free := by
    intro ends
    by_cases own : e.swarm.toString requestUrl = key
    · exact if_pos ⟨own, ends⟩
    · rw [if_neg fun both => own both.1, owed_other own]
  cases copy with
  | none =>
    rw [leads rfl]
    exact adheres_feed_owed rfl
  | some file =>
    rcases e.read_cases file with ⟨_, unreadable⟩ | ⟨doc, read, stale⟩ | ⟨doc, read, fresh⟩
    · rw [ends (requestsAfter_error unreadable), readFinished_error unreadable]
      exact rfl
    · rw [leads (requestsAfter_stale read stale), readFinished_stale read stale]
      refine adheres_insert fun again => ?_
      have still : (if e.swarm.toString requestUrl = key then
          cond again .owing (e.owed key requestUrl) else e.owed key requestUrl) =
            e.owed key requestUrl := by
        split
        · rename_i own
          rw [owed_own own]
          cases again <;> rfl
        · rfl
      rw [still]
      exact adheres_feed_owed (debtState_neutral.adheres_callModified reply _)
    · rw [ends (requestsAfter_fresh read fresh), readFinished_fresh read fresh]
      exact rfl

/-- **A link request settles.** -/
theorem requestLink_settles (reply : Response Url) (data : Str) (requestUrl : Url) :
    e.Settles key (e.requestLink reply data requestUrl) := by
  refine ⟨trivial, fun now _ => adheres_insert fun inserted => ?_⟩
  cases inserted with
  | false =>
    rw [cond_false, ite_self]
    exact rfl
  | true => exact adheres_read (readFinished_adheres reply data requestUrl)

/-- **A completion settles**, whatever was received. -/
theorem afterErase_settles (reply : Response Url) (data : Str) (error : Bool)
    (oldDoc : Document) : e.Settles key (e.afterErase reply data error oldDoc) := by
  have processes : ∀ data, e.Settles key (e.processReply reply data) := fun data =>
    debtState_neutral.adheres_processReply fun href _ => requestLink_settles reply data _
  unfold afterErase
  split
  · exact rfl
  · split
    · exact processes data
    · exact processes oldDoc.data

end Protocol

/-! ### In-flight keys and their requests -/

variable (e)

/-- A request for the key is outstanding. -/
def Requested (key : Str) (pool : EnginePool Url) : Prop :=
  ∃ request ∈ pool.shared.outstanding, e.requests key request = true

/-- **The condition on a step**: a page-cache read of an in-flight key leads to a request, or
another request for it is outstanding or owed by another thread. -/
def Recovers (pool : EnginePool Url) : FaultyAction Url → Prop
  | .action (.thread i) => ∀ key next, pool.threads i = .op (.readData key) next →
    key ∈ pool.shared.inflight → e.requestsAfter (pool.shared.pageCache key) = true ∨
      e.Requested key pool ∨ ∃ j, j ≠ i ∧ e.Owes key (pool.threads j)
  | _ => True

/-- The event is a call of `engine::download` for the key. -/
def Downloads (key : Str) : FaultyAction Url → Prop
  | .action (.download url) => e.swarm.toString url = key
  | _ => False

variable {e} {pool pool' : EnginePool Url}

/-- Nothing that concerns requests has changed. -/
structure Aside (pool pool' : EnginePool Url) : Prop where
  threads : pool'.threads = pool.threads
  spawned : pool'.spawned = pool.spawned
  inflight : pool'.shared.inflight = pool.shared.inflight
  outstanding : pool'.shared.outstanding = pool.shared.outstanding

/-- **All a step can do.** -/
theorem stepFaulty_cases {event : FaultyAction Url}
    (stepped : e.stepFaulty pool event = some pool') :
    (∃ url, event = .action (.download url) ∧
      pool' = { pool with shared := pool.shared.submit ⟨url, none, .direct⟩ }) ∨
    (∃ n request error c, pool.shared.outstanding[n]? = some request ∧
      (∀ key, e.Settles key c) ∧
      pool' = Pool.spawn { pool with shared := e.completedState n request error pool.shared } c) ∨
    (∃ i o next answer shared', event = .action (.thread i) ∧ pool.threads i = .op o next ∧
      o.perform pool.shared = some (answer, shared') ∧
      pool' = { pool with
        shared := shared'
        threads := Function.update pool.threads i (next answer) }) ∨
    (∃ i key next, event = .failRead i ∧ pool.threads i = .op (.readData key) next ∧
      pool' = { pool with
        threads := Function.update pool.threads i (next (none : Option DataPointer)) }) ∨
    Aside pool pool' := by
  cases event with
  | action a =>
    cases a with
    | download url =>
      cases stepped
      exact .inl ⟨url, rfl, rfl⟩
    | complete n url code headers data error =>
      obtain ⟨request, found, rfl⟩ := e.step_complete stepped
      exact .inr (.inl ⟨n, request, error, _, found, fun _ => afterErase_settles _ _ _ _, rfl⟩)
    | thread i =>
      obtain ⟨o, next, answer, shared', thread, performed, rfl⟩ := e.step_thread stepped
      exact .inr (.inr (.inl ⟨i, o, next, answer, shared', rfl, thread, performed, rfl⟩))
    | takeEffect n =>
      obtain ⟨doc, -, rfl⟩ := e.step_takeEffect stepped
      exact .inr (.inr (.inr (.inr ⟨rfl, rfl, rfl, rfl⟩)))
    | tick now =>
      obtain ⟨-, rfl⟩ := e.step_tick stepped
      exact .inr (.inr (.inr (.inr ⟨rfl, rfl, rfl, rfl⟩)))
  | failWrite n =>
    obtain ⟨-, rfl⟩ := e.step_failWrite stepped
    exact .inr (.inr (.inr (.inr ⟨rfl, rfl, rfl, rfl⟩)))
  | failRead i =>
    obtain ⟨key, next, thread, rfl⟩ := e.step_failRead stepped
    exact .inr (.inr (.inr (.inl ⟨i, key, next, rfl, thread, rfl⟩)))

/-! ### Who owes what -/

/-- Every thread settles the key or owes it. -/
structure Accounted (e : EngineData Url) (key : Str) (pool : EnginePool Url) : Prop where
  idle : ∀ i, pool.spawned ≤ i → pool.threads i = .pure ()
  threads : ∀ i, e.Settles key (pool.threads i) ∨ e.Owes key (pool.threads i)

/-- A debt is one of two. -/
theorem settles_or_owes {φ : Debt} {c : EngineProgram Url Unit}
    (adheres : Adheres (e.debtState key) (· = .free) (· = .free) φ c) :
    e.Settles key c ∨ e.Owes key c := by
  cases φ with
  | free => exact .inl adheres
  | owing => exact .inr adheres

/-- Who has ended owes nothing. -/
theorem not_owes_pure : ¬ e.Owes key (.pure ()) := by
  rintro ⟨⟩

theorem not_owes_throw : ¬ e.Owes key .throw := by
  rintro ⟨⟩

namespace Accounted

theorem initial (pageCache : Str → Option DataPointer) : Accounted e key (e.initial pageCache) where
  idle _ _ := rfl
  threads _ := .inl rfl

/-- A thread has been started. -/
theorem thread_lt (accounted : Accounted e key pool) {i : ℕ} {o : EngineOp Url}
    {next : EngineAnswer o → EngineProgram Url Unit} (thread : pool.threads i = .op o next) :
    i < pool.spawned := by
  by_contra beyond
  rw [accounted.idle i (Nat.le_of_not_lt beyond)] at thread
  cases thread

/-- The program of a thread that asks. -/
theorem asks (accounted : Accounted e key pool) {i : ℕ} {o : EngineOp Url}
    {next : EngineAnswer o → EngineProgram Url Unit} (thread : pool.threads i = .op o next) :
    e.Settles key (.op o next) ∨ e.Owes key (.op o next) := by
  rw [← thread]
  exact accounted.threads i

/-- A thread goes on. -/
theorem update (accounted : Accounted e key pool) {i : ℕ} {o : EngineOp Url}
    {next : EngineAnswer o → EngineProgram Url Unit} (thread : pool.threads i = .op o next)
    (answer : EngineAnswer o) (shared' : EngineState Url) :
    Accounted e key { pool with
      shared := shared'
      threads := Function.update pool.threads i (next answer) } where
  idle j beyond := by
    have started := accounted.thread_lt thread
    have beyond : pool.spawned ≤ j := beyond
    exact (Function.update_of_ne (by omega) ..).trans (accounted.idle j beyond)
  threads := by
    refine (Function.forall_update_iff _ fun _ c => e.Settles key c ∨ e.Owes key c).mpr
      ⟨?_, fun j _ => accounted.threads j⟩
    rcases accounted.asks thread with settles | owes
    · exact settles_or_owes (settles.2 answer trivial)
    · exact settles_or_owes (owes.2 answer trivial)

/-- **Every step** keeps the accounts. -/
theorem step (accounted : Accounted e key pool) {event : FaultyAction Url}
    (stepped : e.stepFaulty pool event = some pool') : Accounted e key pool' := by
  rcases stepFaulty_cases stepped with ⟨url, rfl, rfl⟩ | ⟨n, request, error, c, -, settles, rfl⟩ |
    ⟨i, o, next, answer, shared', rfl, thread, -, rfl⟩ | ⟨i, own, next, rfl, thread, rfl⟩ | aside
  · exact ⟨accounted.idle, accounted.threads⟩
  · refine ⟨fun j beyond => ?_, fun j => ?_⟩
    · have beyond : pool.spawned + 1 ≤ j := beyond
      simp only [Pool.spawn]
      rw [Function.update_of_ne (by omega)]
      exact accounted.idle j (by omega)
    · exact (Function.forall_update_iff _ fun _ c => e.Settles key c ∨ e.Owes key c).mpr
        ⟨.inl (settles key), fun j _ => accounted.threads j⟩ j
  · exact accounted.update thread answer shared'
  · exact accounted.update thread none pool.shared
  · exact ⟨by rw [aside.threads, aside.spawned]; exact accounted.idle,
      by rw [aside.threads]; exact accounted.threads⟩

theorem of_run {meets : EnginePool Url → FaultyAction Url → Prop}
    {pageCache : Str → Option DataPointer} {events : List (FaultyAction Url)}
    (run : Run e.stepFaulty meets (e.initial pageCache) events pool) : Accounted e key pool :=
  run.invariant (Accounted e key) (initial pageCache) fun _ _ _ accounted _ stepped =>
    accounted.step stepped

end Accounted

/-! ### Every key in flight is seen to -/

/-- A request for the key is outstanding, or a thread owes it one. -/
def SeenTo (e : EngineData Url) (key : Str) (pool : EnginePool Url) : Prop :=
  e.Requested key pool ∨ ∃ i, e.Owes key (pool.threads i)

/-- Every in-flight key is seen to. -/
def Covered (e : EngineData Url) (key : Str) (pool : EnginePool Url) : Prop :=
  key ∈ pool.shared.inflight → SeenTo e key pool

/-- The pool after a thread's question. -/
abbrev moved (pool : EnginePool Url) (shared' : EngineState Url) (i : ℕ)
    (c : EngineProgram Url Unit) : EnginePool Url :=
  { pool with shared := shared', threads := Function.update pool.threads i c }

theorem owes_moved {shared' : EngineState Url} {i : ℕ} {c : EngineProgram Url Unit}
    (owes : e.Owes key c) : SeenTo e key (moved pool shared' i c) := by
  refine .inr ⟨i, ?_⟩
  show e.Owes key (Function.update pool.threads i c i)
  rwa [Function.update_self]

/-- Another thread's debt stays. -/
theorem owes_other {shared' : EngineState Url} {i j : ℕ} {c : EngineProgram Url Unit}
    (other : j ≠ i) (owes : e.Owes key (pool.threads j)) :
    SeenTo e key (moved pool shared' i c) := by
  refine .inr ⟨j, ?_⟩
  show e.Owes key (Function.update pool.threads i c j)
  rwa [Function.update_of_ne other]

/-- **A key that is seen to stays so** where no request is answered and the thread's own debt
stays. -/
theorem SeenTo.move {shared' : EngineState Url} {i : ℕ} {c : EngineProgram Url Unit}
    (seen : SeenTo e key pool)
    (kept : ∀ request ∈ pool.shared.outstanding, request ∈ shared'.outstanding)
    (debt : e.Owes key (pool.threads i) → e.Owes key c) :
    SeenTo e key (moved pool shared' i c) := by
  rcases seen with ⟨request, member, own⟩ | ⟨j, owes⟩
  · exact .inl ⟨request, kept request member, own⟩
  · by_cases same : j = i
    · subst same
      exact owes_moved (debt owes)
    · exact owes_other same owes

/-- A thread whose question is neither a payment nor a failed read owes what it owed. -/
theorem owes_answered {i : ℕ} {o : EngineOp Url} {next : EngineAnswer o → EngineProgram Url Unit}
    {answer : EngineAnswer o} (thread : pool.threads i = .op o next)
    (stays : (e.debtState key).after .owing o answer = .owing)
    (owes : e.Owes key (pool.threads i)) : e.Owes key (next answer) := by
  rw [thread] at owes
  exact owes.answered trivial stays

/-- **An insertion** leaves every key covered: the thread that makes a new entry owes its request.
-/
theorem Covered.insert {i : ℕ} {other : Str} {doc : Document}
    {next : Bool → EngineProgram Url Unit} (covered : Covered e key pool)
    (accounted : Accounted e key pool)
    (thread : pool.threads i = .op (.insertInflight other doc) next) :
    Covered e key (moved pool
      { pool.shared with inflight := pool.shared.inflight.insertIfNew other doc } i
      (next (!pool.shared.inflight.contains other))) := by
  intro inflight
  by_cases before : key ∈ pool.shared.inflight
  · refine (covered before).move (fun _ member => member) (owes_answered thread ?_)
    by_cases own : other = key
    · subst own
      rw [after_insertInflight, Std.TreeMap.contains_iff_mem.mpr before]
      rfl
    · exact if_neg own
  · rcases Std.TreeMap.mem_insertIfNew.mp inflight with same | member
    · have same : other = key := Std.LawfulEqCmp.eq_of_compare same
      subst same
      have unknown : pool.shared.inflight.contains other = false := by
        rw [Bool.eq_false_iff]
        exact fun known => before (Std.TreeMap.contains_iff_mem.mp known)
      have owing : ∀ φ, (e.debtState other).after φ (.insertInflight other doc)
          (!pool.shared.inflight.contains other : Bool) = .owing := fun φ => by
        rw [after_insertInflight, unknown]
        rfl
      refine owes_moved ?_
      rcases accounted.asks thread with settles | owes
      · exact settles.answered trivial (owing .free)
      · exact owes.answered trivial (owing .owing)
    · exact absurd member before

/-- **A thread's question** leaves every key covered, if its reads recover. -/
theorem Covered.thread {i : ℕ} {o : EngineOp Url} {next : EngineAnswer o → EngineProgram Url Unit}
    {answer : EngineAnswer o} {shared' : EngineState Url} (covered : Covered e key pool)
    (accounted : Accounted e key pool) (recovers : e.Recovers pool (.action (.thread i)))
    (thread : pool.threads i = .op o next)
    (performed : o.perform pool.shared = some (answer, shared')) :
    Covered e key (moved pool shared' i (next answer)) := by
  cases o with
  | insertInflight other doc =>
    cases performed
    exact covered.insert accounted thread
  | eraseInflight other =>
    cases performed
    rcases accounted.asks thread with settles | owes
    · exact settles.1.elim
    · exact owes.1.elim
  | readData other =>
    cases performed
    intro inflight
    by_cases ends : other = key ∧ e.requestsAfter (pool.shared.pageCache other) = false
    · obtain ⟨rfl, ends⟩ := ends
      rcases recovers other next thread inflight with leads | requested | ⟨j, different, owes⟩
      · rw [ends] at leads
        cases leads
      · exact .inl requested
      · exact owes_other different owes
    · exact (covered inflight).move (fun _ member => member) (owes_answered thread (if_neg ends))
  | feed url doc =>
    cases performed
    intro inflight
    by_cases own : e.swarm.toString url = key
    · exact .inl ⟨⟨url, doc, .link⟩, List.mem_append_right _ (List.mem_singleton.mpr rfl),
        requests_iff.mpr own⟩
    · exact (covered inflight).move (fun _ member => List.mem_append_left _ member)
        (owes_answered thread (if_neg own))
  | wait result =>
    obtain rfl := perform_wait performed
    exact fun inflight =>
      (covered inflight).move (fun _ member => member) (owes_answered thread rfl)
  | _ =>
    cases performed
    exact fun inflight =>
      (covered inflight).move (fun _ member => member) (owes_answered thread rfl)

/-- **Every step that recovers** leaves every key covered. -/
theorem Covered.step {event : FaultyAction Url} (covered : Covered e key pool)
    (accounted : Accounted e key pool) (recovers : e.Recovers pool event)
    (stepped : e.stepFaulty pool event = some pool') : Covered e key pool' := by
  rcases stepFaulty_cases stepped with ⟨url, rfl, rfl⟩ |
    ⟨n, request, error, c, found, settles, rfl⟩ | ⟨i, o, next, answer, shared', rfl, thread,
    performed, rfl⟩ | ⟨i, own, next, rfl, thread, rfl⟩ | aside
  · intro inflight
    rcases covered inflight with ⟨request, member, own⟩ | owes
    · exact .inl ⟨request, List.mem_append_left _ member, own⟩
    · exact .inr owes
  · intro inflight
    obtain ⟨other, before⟩ := Std.TreeMap.mem_erase.mp inflight
    have other : e.swarm.toString request.url ≠ key := fun same =>
      other (same ▸ Std.ReflCmp.compare_self)
    rcases covered before with ⟨kept, member, own⟩ | ⟨i, owes⟩
    · -- the answered request is another key's
      obtain ⟨place, at_place⟩ := List.getElem?_of_mem member
      refine .inl ⟨kept, List.mem_eraseIdx_iff_getElem?.mpr ⟨place, ?_, at_place⟩, own⟩
      rintro rfl
      rw [found] at at_place
      cases at_place
      exact other (requests_iff.mp own)
    · refine .inr ⟨i, ?_⟩
      have started : i ≠ pool.spawned := by
        rintro rfl
        rw [accounted.idle _ (Nat.le_refl _)] at owes
        exact not_owes_pure owes
      simp only [Pool.spawn, Function.update_of_ne started]
      exact owes
  · exact covered.thread accounted recovers thread performed
  · intro inflight
    exact (covered inflight).move (fun _ member => member)
      (owes_answered thread (if_neg fun ends => by cases ends.2))
  · intro inflight
    rw [aside.inflight] at inflight
    rcases covered inflight with ⟨request, member, own⟩ | ⟨i, owes⟩
    · exact .inl ⟨request, by rwa [aside.outstanding], own⟩
    · exact .inr ⟨i, by rwa [aside.threads]⟩

theorem Covered.of_run {pageCache : Str → Option DataPointer} {events : List (FaultyAction Url)}
    (run : Run e.stepFaulty e.Recovers (e.initial pageCache) events pool) : Covered e key pool := by
  refine (run.invariant (fun pool => Accounted e key pool ∧ Covered e key pool)
    ⟨.initial pageCache, fun inflight => ?_⟩ ?_).2
  · exact absurd inflight Std.TreeMap.not_mem_emptyc
  · intro pool event pool' ⟨accounted, covered⟩ recovers stepped
    exact ⟨accounted.step stepped, covered.step accounted recovers stepped⟩

/-! ### No thread at work -/

/-- The thread has ended, by a return or by an exception. -/
def ended : EngineProgram Url Unit → Bool
  | .op _ _ => false
  | _ => true

/-- No thread executes `process_reply`. -/
def Quiet (pool : EnginePool Url) : Prop :=
  ∀ i < pool.spawned, ended (pool.threads i) = true

instance (pool : EnginePool Url) : Decidable (Quiet pool) :=
  inferInstanceAs (Decidable (∀ i < pool.spawned, _))

theorem not_owes_ended {c : EngineProgram Url Unit} (finished : ended c = true) :
    ¬ e.Owes key c := by
  cases c with
  | pure value => exact not_owes_pure
  | throw => exact not_owes_throw
  | op o next => cases finished

/-- **Where nobody is at work nobody owes anything.** -/
theorem Accounted.not_owes (accounted : Accounted e key pool) (quiet : Quiet pool) (i : ℕ) :
    ¬ e.Owes key (pool.threads i) := by
  by_cases started : i < pool.spawned
  · exact not_owes_ended (quiet i started)
  · rw [accounted.idle i (Nat.le_of_not_lt started)]
    exact not_owes_pure

/-! ### A key that stays -/

/-- The key is in flight, no request for it is outstanding, and nobody owes one. -/
structure Stuck (e : EngineData Url) (key : Str) (pool : EnginePool Url) : Prop where
  inflight : key ∈ pool.shared.inflight
  unrequested : ∀ request ∈ pool.shared.outstanding, e.swarm.toString request.url ≠ key
  settles : ∀ i, e.Settles key (pool.threads i)

theorem Stuck.not_requested (stuck : Stuck e key pool) : ¬ e.Requested key pool :=
  fun ⟨request, member, own⟩ => stuck.unrequested request member (requests_iff.mp own)

/-- A thread goes on, and owes the key nothing. -/
theorem settles_update {i : ℕ} {c : EngineProgram Url Unit}
    (settles : ∀ j, j ≠ i → e.Settles key (pool.threads j)) (own : e.Settles key c) :
    ∀ j, e.Settles key (Function.update pool.threads i c j) :=
  (Function.forall_update_iff _ fun _ c => e.Settles key c).mpr ⟨own, settles⟩

/-- **A thread's question** leaves the key stuck: it is in flight already, so no insertion of it
succeeds, and nobody else submits a request. -/
theorem Stuck.thread {i : ℕ} {o : EngineOp Url} {next : EngineAnswer o → EngineProgram Url Unit}
    {answer : EngineAnswer o} {shared' : EngineState Url} (stuck : Stuck e key pool)
    (thread : pool.threads i = .op o next)
    (performed : o.perform pool.shared = some (answer, shared')) :
    Stuck e key (moved pool shared' i (next answer)) := by
  have settles := stuck.settles i
  rw [thread] at settles
  have settled : (e.debtState key).after .free o answer = .free →
      ∀ j, e.Settles key (Function.update pool.threads i (next answer) j) := fun phase =>
    settles_update (fun j _ => stuck.settles j) (settles.answered trivial phase)
  cases o with
  | insertInflight other doc =>
    cases performed
    refine ⟨Std.TreeMap.mem_insertIfNew.mpr (.inr stuck.inflight), stuck.unrequested, settled ?_⟩
    by_cases own : other = key
    · subst own
      rw [after_insertInflight, Std.TreeMap.contains_iff_mem.mpr stuck.inflight]
      rfl
    · exact if_neg own
  | eraseInflight other => exact settles.1.elim
  | readData other =>
    cases performed
    exact ⟨stuck.inflight, stuck.unrequested, settled (ite_self _)⟩
  | feed url doc =>
    cases performed
    have other : e.swarm.toString url ≠ key := fun own => by cases settles.1 own
    refine ⟨stuck.inflight, fun request member => ?_, settled (if_neg other)⟩
    rcases List.mem_append.mp member with before | new
    · exact stuck.unrequested request before
    · rw [List.mem_singleton.mp new]
      exact other
  | wait result =>
    obtain rfl := perform_wait performed
    exact ⟨stuck.inflight, stuck.unrequested, settled rfl⟩
  | _ =>
    cases performed
    exact ⟨stuck.inflight, stuck.unrequested, settled rfl⟩

/-- **Every step but a call of `engine::download` for the key** leaves it stuck. -/
theorem Stuck.step {event : FaultyAction Url} (stuck : Stuck e key pool)
    (elsewhere : ¬ e.Downloads key event) (stepped : e.stepFaulty pool event = some pool') :
    Stuck e key pool' := by
  rcases stepFaulty_cases stepped with ⟨url, rfl, rfl⟩ |
    ⟨n, request, error, c, found, settles, rfl⟩ | ⟨i, o, next, answer, shared', rfl, thread,
    performed, rfl⟩ | ⟨i, own, next, rfl, thread, rfl⟩ | aside
  · refine ⟨stuck.inflight, fun request member => ?_, stuck.settles⟩
    rcases List.mem_append.mp member with before | new
    · exact stuck.unrequested request before
    · rw [List.mem_singleton.mp new]
      exact elsewhere
  · have other := stuck.unrequested request (List.mem_of_getElem? found)
    refine ⟨?_, fun kept member => ?_, settles_update (fun j _ => stuck.settles j) (settles key)⟩
    · exact Std.TreeMap.mem_erase.mpr
        ⟨fun same => other (Std.LawfulEqCmp.eq_of_compare same), stuck.inflight⟩
    · exact stuck.unrequested kept (List.mem_of_mem_eraseIdx member)
  · exact stuck.thread thread performed
  · have settles := stuck.settles i
    rw [thread] at settles
    refine ⟨stuck.inflight, stuck.unrequested, settles_update (fun j _ => stuck.settles j) ?_⟩
    exact settles.answered trivial (ite_self _)
  · refine ⟨?_, ?_, ?_⟩
    · rw [aside.inflight]
      exact stuck.inflight
    · rw [aside.outstanding]
      exact stuck.unrequested
    · rw [aside.threads]
      exact stuck.settles

theorem Stuck.run {later : List (FaultyAction Url)} {pool'' : EnginePool Url}
    (stuck : Stuck e key pool)
    (run : Run e.stepFaulty (fun _ event => ¬ e.Downloads key event) pool later pool'') :
    Stuck e key pool'' :=
  run.invariant (Stuck e key) stuck fun _ _ _ stuck elsewhere stepped =>
    stuck.step elsewhere stepped

/-- **A step that does not recover** leaves a key stuck: the thread that read it drops its debt, and
no other has one. -/
theorem stuck_of_not_recovers {event : FaultyAction Url}
    (accounted : ∀ key, Accounted e key pool) (abandons : ¬ e.Recovers pool event)
    (stepped : e.stepFaulty pool event = some pool') : ∃ key, Stuck e key pool' := by
  cases event with
  | failWrite n => exact absurd trivial abandons
  | failRead i => exact absurd trivial abandons
  | action a =>
    cases a with
    | thread i =>
      simp only [Recovers, not_forall, not_or, not_exists, not_and] at abandons
      obtain ⟨key, next, thread, inflight, ends, unrequested, nobody⟩ := abandons
      obtain ⟨o, next', answer, shared', thread', performed, rfl⟩ := e.step_thread stepped
      cases thread.symm.trans thread'
      cases performed
      refine ⟨key, inflight, fun request member own => ?_, ?_⟩
      · exact unrequested ⟨request, member, requests_iff.mpr own⟩
      · have dropped : ∀ φ, (e.debtState key).after φ (.readData key)
            (pool.shared.pageCache key : Option DataPointer) = .free := by
          intro φ
          exact if_pos ⟨rfl, Bool.eq_false_iff.mpr ends⟩
        refine settles_update (fun j other => ?_) ?_
        · exact ((accounted key).threads j).resolve_right (nobody j other)
        · rcases (accounted key).asks thread with settles | owes
          · exact settles.answered trivial (dropped .free)
          · exact owes.answered trivial (dropped .owing)
    | _ => exact absurd trivial abandons

/-- Every in-flight key has an outstanding request. -/
def NoneStuck (e : EngineData Url) (pool : EnginePool Url) : Prop :=
  ∀ key ∈ pool.shared.inflight, e.Requested key pool

/-- **No entry is stuck** in a run whose page-cache reads of in-flight keys lead to requests: once
no thread is at work every in-flight key has an outstanding request, and the map is empty when all
are answered. A step that reads an in-flight key nobody else requests, and leads to no request,
leaves the key in the map without one until `engine::download` is called for it. -/
theorem no_stuck_entries (e : EngineData Url) (pageCache : Str → Option DataPointer)
    (events : List (FaultyAction Url)) (pool : EnginePool Url) :
    (Run e.stepFaulty e.Recovers (e.initial pageCache) events pool → Quiet pool →
      e.NoneStuck pool ∧
        (pool.shared.outstanding = [] → pool.shared.inflight.isEmpty = true)) ∧
    (Run e.stepFaulty AnyStep (e.initial pageCache) events pool →
      ∀ event pool', ¬ e.Recovers pool event → e.stepFaulty pool event = some pool' →
        ∃ key, ∀ later pool'',
          Run e.stepFaulty (fun _ event => ¬ e.Downloads key event) pool' later pool'' →
            key ∈ pool''.shared.inflight ∧ ¬ e.Requested key pool'') := by
  constructor
  · intro run quiet
    have none_stuck : e.NoneStuck pool := by
      intro key inflight
      rcases Covered.of_run run inflight with requested | ⟨i, owes⟩
      · exact requested
      · exact absurd owes ((Accounted.of_run run).not_owes quiet i)
    refine ⟨none_stuck, fun answered => ?_⟩
    refine Std.TreeMap.isEmpty_iff_forall_not_mem.mpr fun key inflight => ?_
    obtain ⟨request, member, -⟩ := none_stuck key inflight
    rw [answered] at member
    cases member
  · intro run event pool' abandons stepped
    obtain ⟨key, stuck⟩ := stuck_of_not_recovers (fun _ => Accounted.of_run run) abandons stepped
    refine ⟨key, fun later pool'' after => ?_⟩
    have still := stuck.run after
    exact ⟨still.inflight, still.not_requested⟩

/-! ### Two pages that link to one another -/

/-- The read leads to a request or meets an outstanding one. -/
def recovers (e : EngineData Url) (pool : EnginePool Url) : FaultyAction Url → Bool
  | .action (.thread i) =>
    match pool.threads i with
    | .op (.readData key) _ =>
      e.requestsAfter (pool.shared.pageCache key) || pool.shared.outstanding.any (e.requests key)
    | _ => true
  | _ => true

theorem recovers_of_eval {event : FaultyAction Url} (holds : e.recovers pool event = true) :
    e.Recovers pool event := by
  cases event with
  | action a =>
    cases a with
    | thread i =>
      intro key next thread inflight
      simp only [recovers, thread] at holds
      rcases Bool.or_eq_true_iff.mp holds with leads | requested
      · exact .inl leads
      · exact .inr (.inl (List.any_eq_true.mp requested))
    | _ => trivial
  | _ => trivial

namespace LinkedPages

/-- The link to `b` is followed, and the page of `a` is stored. -/
def followed : List (FaultyAction Str) :=
  TwoPages.followed ++ [.action (.takeEffect 0), .action (.thread 0)]

/-- `b` links back to `a`, whose copy is of this generation. -/
def answeredBack : List (EngineAction Str) :=
  [.complete 0 TwoPages.second 200 [] TwoPages.first false] ++ List.replicate 6 (.thread 1) ++
    [.takeEffect 1, .thread 1]

def linkedBack : List (FaultyAction Str) := followed ++ answeredBack.map .action

theorem runs_followed : (exec PlainUrl.crawler.stepFaulty PlainUrl.crawler.recovers
    (PlainUrl.crawler.initial fun _ => none) followed).isSome = true := rfl

theorem runs_linkedBack : (exec PlainUrl.crawler.stepFaulty (fun _ _ => true)
    (PlainUrl.crawler.initial fun _ => none) linkedBack).isSome = true := rfl

end LinkedPages

theorem no_stuck_entries_followed :
    PlainUrl.crawler.NoneStuck (endState LinkedPages.runs_followed) :=
  ((no_stuck_entries PlainUrl.crawler (fun _ => none) LinkedPages.followed
      (endState LinkedPages.runs_followed)).1
    (Run.of_endState (fun _ _ => recovers_of_eval) LinkedPages.runs_followed) (by decide)).1

/-- **Two pages link to one another**: the second finds a fresh copy of the first, makes an entry
for it, and requests nothing. -/
theorem entry_stuck :
    ¬ ∀ (e : EngineData Str) (pageCache : Str → Option DataPointer)
      (events : List (FaultyAction Str)) (pool : EnginePool Str),
      Run e.stepFaulty AnyStep (e.initial pageCache) events pool → Quiet pool →
        e.NoneStuck pool := by
  intro none_stuck
  have run : Run PlainUrl.crawler.stepFaulty AnyStep (PlainUrl.crawler.initial fun _ => none)
      LinkedPages.linkedBack (endState LinkedPages.runs_linkedBack) :=
    Run.of_endState (fun _ _ _ => trivial) LinkedPages.runs_linkedBack
  have quiet : Quiet (endState LinkedPages.runs_linkedBack) := by decide
  have registered : TwoPages.first ∈ (endState LinkedPages.runs_linkedBack).shared.inflight := by
    decide
  obtain ⟨request, member, -⟩ := none_stuck _ _ _ _ run quiet _ registered
  have answered : (endState LinkedPages.runs_linkedBack).shared.outstanding = [] := rfl
  rw [answered] at member
  cases member

end EngineData

end Wookie
