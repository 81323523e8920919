/-
**The crawl as a machine of its own.**

Where the engine is threads some way into `process_url`, a `Crawl` is what each of them has still
to do, next to what they share. `Move` is what can happen to it: a request is made or answered, a
page is announced, a link is looked up, a copy is written.

* `Tracks` — the threads of the engine do the duties of the crawl.
* `Tracks.step` — **every step of the engine is a move of the crawl**, storage operations that fail
  included, as long as the copies in the page cache unpack.
* `crawl_invariant` — so what the moves keep holds of every run, and `Tracks.done` says that in a
  state where no thread is at work nothing is left to do.
-/

import Wookie.Engine.Duty

namespace Wookie

open Library

variable {Url : Type}

/-- What the threads share, and what each has to do. -/
structure Crawl (Url : Type) where
  shared : EngineState Url
  duties : ℕ → Duty Url

namespace Crawl

/-- The state after a thread's part in a move. -/
def moved (c : Crawl Url) (shared : EngineState Url) (i : ℕ) (φ : Duty Url) : Crawl Url :=
  ⟨shared, Function.update c.duties i φ⟩

variable {c : Crawl Url} {shared : EngineState Url} {i j : ℕ} {φ : Duty Url}

@[simp] theorem moved_self : (c.moved shared i φ).duties i = φ := Function.update_self ..

theorem moved_other (other : j ≠ i) : (c.moved shared i φ).duties j = c.duties j :=
  Function.update_of_ne other ..

variable (P : Duty Url → Prop)

/-- **What holds of a duty somewhere** still does, if the thread's part in a move keeps it. -/
theorem someone_moved (somewhere : ∃ j, P (c.duties j)) (kept : P (c.duties i) → P φ) :
    ∃ j, P ((c.moved shared i φ).duties j) := by
  obtain ⟨j, holds⟩ := somewhere
  by_cases same : j = i
  · subst same
    exact ⟨j, by rw [moved_self]; exact kept holds⟩
  · exact ⟨j, by rwa [moved_other same]⟩

/-- What holds of the duty the thread is left with holds somewhere. -/
theorem someone_self (own : P φ) : ∃ j, P ((c.moved shared i φ).duties j) :=
  ⟨i, by rwa [moved_self]⟩

/-- **What holds of every duty** still does, if it holds of the one the thread is left with. -/
theorem everyone_moved (every : ∀ j, P (c.duties j)) (own : P φ) (j : ℕ) :
    P ((c.moved shared i φ).duties j) := by
  by_cases same : j = i
  · subst same
    rwa [moved_self]
  · rw [moved_other same]
    exact every j

end Crawl

namespace EngineData

variable (e : EngineData Url)

/-- **What can happen to a crawl**, by the event of the engine it happens at. -/
inductive Move : FaultyAction Url → Crawl Url → Crawl Url → Prop
  /-- Nothing the crawl sees, but for the clock. -/
  | aside (event : FaultyAction Url) (c : Crawl Url) (now : DnetTime) :
    Move event c { c with shared := { c.shared with now := now } }
  /-- `engine::download`. -/
  | download (c : Crawl Url) (url : Url) :
    Move (.action (.download url)) c { c with shared := c.shared.submit ⟨url, none, .direct⟩ }
  /-- A request is answered, and a thread starts, with what was in flight for it. -/
  | complete (c : Crawl Url) (n i : ℕ) (request : Request Url) (url : Url) (code : ℕ)
      (headers : List (Str × Str)) (data : Str) (error : Bool) (oldDoc : Document) :
    c.shared.outstanding[n]? = some request → c.duties i = .none →
    c.shared.inflight[e.swarm.toString request.url]?.getD (Document.new c.shared.now) = oldDoc →
    Move (.action (.complete n url code headers data error)) c
      (c.moved (e.completedState n request error c.shared) i
        (entryDuty ⟨request.url, url, code, headers⟩ data error oldDoc))
  /-- A page is announced. -/
  | announce (event : FaultyAction Url) (c : Crawl Url) (i : ℕ) (reply : Response Url)
      (data : Str) : (c.duties i).page = some (reply, data) →
    Move event c (c.moved { c.shared with log := .processing reply data :: c.shared.log } i
      ((c.duties i).announce (e.work reply data)))
  /-- A processor is called. -/
  | serve (event : FaultyAction Url) (c : Crawl Url) (i : ℕ) (functor : ProcessFunctor)
      (reply : Response Url) (data : Str) (type : DocumentType) :
    (functor, reply, data) ∈ (c.duties i).served →
    Move event c
      (c.moved { c.shared with log := .processed functor reply data type :: c.shared.log } i
        ((c.duties i).called {(functor, reply, data)}))
  /-- A key is looked up in the in-flight map. -/
  | lookUp (event : FaultyAction Url) (c : Crawl Url) (i : ℕ) (key : Str) (doc : Document) :
    Move event c
      (c.moved { c.shared with inflight := c.shared.inflight.insertIfNew key doc } i
        ((c.duties i).lookUp key (!c.shared.inflight.contains key)))
  /-- A copy of this generation is found. -/
  | found (event : FaultyAction Url) (c : Crawl Url) (i : ℕ) (key : Str) :
    e.requestsAfter (c.shared.pageCache key) = false →
    Move event c (c.moved c.shared i ((c.duties i).pay key))
  /-- The link loop requests a URL. -/
  | submit (event : FaultyAction Url) (c : Crawl Url) (i : ℕ) (url : Url)
      (doc : Option Document) : url ∈ (c.duties i).targets →
    Move event c (c.moved (c.shared.submit ⟨url, doc, .link⟩) i
      ((c.duties i).pay (e.swarm.toString url)))
  /-- A copy is written. -/
  | write (event : FaultyAction Url) (c : Crawl Url) (i : ℕ) (doc : Document) :
    (doc.key, doc.data) ∈ (c.duties i).copies → doc.ts.before e.generationTime = false →
    Move event c (c.moved { c.shared with writes := c.shared.writes ++ [doc] } i
      ((c.duties i).write doc c.shared.writes.length))
  /-- A write that ended has been waited for. -/
  | waited (event : FaultyAction Url) (c : Crawl Url) (i result : ℕ) :
    result ∈ c.shared.effective →
    Move event c (c.moved c.shared i ((c.duties i).waited result))
  /-- A write reaches the page cache. -/
  | store (event : FaultyAction Url) (c : Crawl Url) (n : ℕ) (doc : Document) :
    c.shared.writes[n]? = some doc →
    Move event c { c with shared := c.shared.store n doc }
  /-- A write ends with an error. -/
  | failWrite (c : Crawl Url) (n : ℕ) (doc : Document) :
    c.shared.writes[n]? = some doc →
    Move (.failWrite n) c
      { c with shared := { c.shared with effective := n :: c.shared.effective } }

/-- Every copy in the page cache unpacks. -/
def Readable (pageCache : Str → Option DataPointer) : Prop :=
  ∀ key file, pageCache key = some file → ∃ doc, unpackDocument file = .ok doc

/-- A write puts what unpacks into the page cache. -/
theorem Readable.store {s : EngineState Url} (readable : Readable s.pageCache) {n : ℕ}
    (doc : Document) : Readable (s.store n doc).pageCache := by
  intro key file held
  by_cases own : key = doc.key
  · subst own
    simp only [EngineState.store, Function.update_self, Option.some.injEq] at held
    exact ⟨doc, held ▸ unpackDocument_packDocument doc⟩
  · simp only [EngineState.store, Function.update_of_ne own] at held
    exact readable key file held

/-- **The threads of the engine do the duties of the crawl.** -/
structure Tracks (pool : EnginePool Url) (c : Crawl Url) : Prop where
  shared : c.shared = pool.shared
  adhere : pool.Adhere e.dutyState (fun _ => False) Duty.Done c.duties
  clock : pool.shared.now.before e.generationTime = false
  readable : Readable pool.shared.pageCache
  idle : ∀ i, pool.spawned ≤ i → pool.threads i = .pure () ∧ c.duties i = .none

variable {e} {pool pool' : EnginePool Url} {c : Crawl Url} {event : FaultyAction Url}

/-- What a question leaves alone. -/
theorem perform_frame {o : EngineOp Url} {s s' : EngineState Url} {answer : EngineAnswer o}
    (performed : o.perform s = some (answer, s')) :
    s'.now = s.now ∧ s'.pageCache = s.pageCache := by
  cases o with
  | wait result =>
    obtain rfl := perform_wait performed
    exact ⟨rfl, rfl⟩
  | _ =>
    cases performed
    exact ⟨rfl, rfl⟩

namespace Tracks

theorem initial {pageCache : Str → Option DataPointer} (readable : Readable pageCache) :
    Tracks e (e.initial pageCache) ⟨(e.initial pageCache).shared, fun _ => .none⟩ where
  shared := rfl
  adhere _ := Duty.done_none
  clock := DnetTime.before_irrefl _
  readable := readable
  idle _ _ := ⟨rfl, rfl⟩

/-- A thread has been started. -/
theorem thread_lt (tracks : Tracks e pool c) {i : ℕ} {o : EngineOp Url}
    {next : EngineAnswer o → EngineProgram Url Unit} (thread : pool.threads i = .op o next) :
    i < pool.spawned := by
  by_contra beyond
  rw [(tracks.idle i (Nat.le_of_not_lt beyond)).1] at thread
  cases thread

/-- The duty of a thread that asks. -/
theorem may (tracks : Tracks e pool c) {i : ℕ} {o : EngineOp Url}
    {next : EngineAnswer o → EngineProgram Url Unit} (thread : pool.threads i = .op o next) :
    e.dutyState.may (c.duties i) o := (tracks.adhere.asks thread).1

/-- **A thread goes on with its duty**, if the answer is one its duty expects. -/
theorem goes (tracks : Tracks e pool c) {i : ℕ} {o : EngineOp Url}
    {next : EngineAnswer o → EngineProgram Url Unit} (thread : pool.threads i = .op o next)
    {answer : EngineAnswer o} (expected : e.dutyState.expects (c.duties i) o answer)
    {shared' : EngineState Url} (clock : shared'.now = pool.shared.now)
    (pages : shared'.pageCache = pool.shared.pageCache) :
    Tracks e (EngineData.moved pool shared' i (next answer))
      (c.moved shared' i (e.dutyState.after (c.duties i) o answer)) where
  shared := rfl
  adhere := tracks.adhere.step thread expected shared'
  clock := by
    show shared'.now.before _ = false
    rw [clock]
    exact tracks.clock
  readable := by
    show Readable shared'.pageCache
    rw [pages]
    exact tracks.readable
  idle j beyond := by
    have started := tracks.thread_lt thread
    have beyond : pool.spawned ≤ j := beyond
    have other : j ≠ i := by omega
    exact ⟨(Function.update_of_ne other ..).trans (tracks.idle j beyond).1,
      (Function.update_of_ne other ..).trans (tracks.idle j beyond).2⟩

/-- What is shared changes, and no thread moves. -/
theorem through (tracks : Tracks e pool c) (change : EngineState Url → EngineState Url)
    (clock : (change pool.shared).now.before e.generationTime = false)
    (readable : Readable (change pool.shared).pageCache) :
    Tracks e { pool with shared := change pool.shared } { c with shared := change c.shared } where
  shared := congrArg change tracks.shared
  adhere := tracks.adhere
  clock := clock
  readable := readable
  idle := tracks.idle

/-- A question's answer is one the duty expects. -/
theorem expected (tracks : Tracks e pool c) (i : ℕ) {o : EngineOp Url} {answer : EngineAnswer o}
    {shared' : EngineState Url} (performed : o.perform pool.shared = some (answer, shared')) :
    e.dutyState.expects (c.duties i) o answer := by
  cases o with
  | currentTime =>
    cases performed
    exact tracks.clock
  | readData key =>
    cases performed
    exact tracks.readable key
  | _ => trivial

/-- **A thread's question** is a move. -/
theorem thread (tracks : Tracks e pool c) {i : ℕ} {o : EngineOp Url}
    {next : EngineAnswer o → EngineProgram Url Unit} {answer : EngineAnswer o}
    {shared' : EngineState Url} (thread : pool.threads i = .op o next)
    (performed : o.perform pool.shared = some (answer, shared')) :
    ∃ c', Tracks e (EngineData.moved pool shared' i (next answer)) c' ∧ e.Move event c c' := by
  obtain ⟨clock, pages⟩ := perform_frame performed
  have goes := tracks.goes thread (tracks.expected i performed) clock pages
  have may := tracks.may thread
  refine ⟨_, goes, ?_⟩
  rw [← tracks.shared] at performed
  -- a question the duty does not see leaves it as it is
  have stays : ∀ shared : EngineState Url,
      c.moved shared i (c.duties i) = { c with shared := shared } :=
    fun shared => by rw [Crawl.moved, Function.update_eq_self]
  cases o with
  | currentTime =>
    cases performed
    exact stays c.shared ▸ .aside event c c.shared.now
  | insertInflight key doc =>
    cases performed
    exact .lookUp event c i key doc
  | eraseInflight key => exact may.elim
  | writeDocument doc =>
    cases performed
    exact .write event c i doc may.1 may.2
  | wait result =>
    obtain rfl := perform_wait performed
    simp only [EngineOp.perform] at performed
    split at performed
    · rename_i ended
      exact .waited event c i result ended
    · cases performed
  | readData key =>
    cases performed
    by_cases ends : e.requestsAfter (c.shared.pageCache key) = false
    · simp only [dutyState, if_pos ends]
      exact .found event c i key ends
    · simp only [dutyState, if_neg ends]
      exact stays c.shared ▸ .aside event c c.shared.now
  | feed url doc =>
    cases performed
    exact .submit event c i url doc may
  | processing reply data =>
    cases performed
    exact .announce event c i reply data may
  | process functor reply data type =>
    cases performed
    exact .serve event c i functor reply data type may

/-- **Every step of the engine is a move of the crawl.** -/
theorem step (tracks : Tracks e pool c) (stepped : e.stepFaulty pool event = some pool') :
    ∃ c', Tracks e pool' c' ∧ e.Move event c c' := by
  cases event with
  | action a =>
    cases a with
    | download url =>
      cases stepped
      exact ⟨_, tracks.through (EngineState.submit · ⟨url, none, .direct⟩) tracks.clock
        tracks.readable, .download c url⟩
    | complete n url code headers data error =>
      obtain ⟨request, found, rfl⟩ := e.step_complete stepped
      have fresh := (tracks.idle pool.spawned (Nat.le_refl _)).2
      rw [← tracks.shared] at found
      have answered := tracks.through (e.completedState n request error) tracks.clock
        tracks.readable
      refine ⟨_, ?_, .complete c n pool.spawned request url code headers data error
        (pool.shared.inflight[e.swarm.toString request.url]?.getD (Document.new pool.shared.now))
        found fresh (by rw [tracks.shared])⟩
      refine ⟨answered.shared, answered.adhere.spawn (afterErase_discharges error _),
        answered.clock, answered.readable, ?_⟩
      intro j beyond
      have beyond : pool.spawned + 1 ≤ j := beyond
      have other : j ≠ pool.spawned := by omega
      have before := tracks.idle j (by omega)
      exact ⟨(Function.update_of_ne other ..).trans before.1,
        (Function.update_of_ne other ..).trans before.2⟩
    | thread i =>
      obtain ⟨o, next, answer, shared', thread, performed, rfl⟩ := e.step_thread stepped
      exact tracks.thread thread performed
    | takeEffect n =>
      obtain ⟨doc, found, rfl⟩ := e.step_takeEffect stepped
      rw [← tracks.shared] at found
      refine ⟨_, tracks.through (EngineState.store · n doc) tracks.clock ?_, .store _ c n doc found⟩
      exact tracks.readable.store doc
    | tick now =>
      obtain ⟨later, rfl⟩ := e.step_tick stepped
      exact ⟨_, tracks.through (fun s => { s with now := now })
        (DnetTime.not_before_trans tracks.clock later) tracks.readable,
        .aside _ c now⟩
  | failWrite n =>
    obtain ⟨⟨doc, found⟩, rfl⟩ := e.step_failWrite stepped
    rw [← tracks.shared] at found
    exact ⟨_, tracks.through (fun s => { s with effective := n :: s.effective }) tracks.clock
      tracks.readable, .failWrite c n doc found⟩
  | failRead i =>
    obtain ⟨key, next, thread, rfl⟩ := e.step_failRead stepped
    have expected : e.dutyState.expects (c.duties i) (.readData key)
        (none : Option DataPointer) := by
      intro file held
      cases held
    have goes := tracks.goes thread expected rfl rfl
    have stays : c.moved pool.shared i (c.duties i) = c := by
      rw [Crawl.moved, Function.update_eq_self, ← tracks.shared]
    refine ⟨_, goes, ?_⟩
    show e.Move (.failRead i) c (c.moved pool.shared i (c.duties i))
    rw [stays]
    exact .aside _ c c.shared.now

/-- **Where no thread is at work nothing is left to do.** -/
theorem done (tracks : Tracks e pool c) (quiet : Quiet pool) (i : ℕ) : (c.duties i).Done := by
  by_cases started : i < pool.spawned
  · have adheres := tracks.adhere i
    have ended := quiet i started
    cases thread : pool.threads i with
    | pure value =>
      rw [thread] at adheres
      exact adheres
    | throw =>
      rw [thread] at adheres
      exact adheres.elim
    | op o next =>
      rw [thread] at ended
      cases ended
  · rw [(tracks.idle i (Nat.le_of_not_lt started)).2]
    exact Duty.done_none

end Tracks

/-- **What the moves keep holds of every run** from a page cache whose copies unpack. -/
theorem crawl_invariant {meets : EnginePool Url → FaultyAction Url → Prop}
    {pageCache : Str → Option DataPointer} {events : List (FaultyAction Url)}
    (holds : Crawl Url → Prop) (readable : Readable pageCache)
    (run : Run e.stepFaulty meets (e.initial pageCache) events pool)
    (initial : holds ⟨(e.initial pageCache).shared, fun _ => .none⟩)
    (keeps : ∀ pool c event c', Tracks e pool c → meets pool event → holds c →
      e.Move event c c' → holds c') :
    ∃ c, Tracks e pool c ∧ holds c :=
  run.simulated holds (Tracks.initial readable) (fun _ _ _ _ tracks stepped => tracks.step stepped)
    initial keeps

end EngineData

end Wookie
