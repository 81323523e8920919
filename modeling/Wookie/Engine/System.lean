/-
**The crawler's runs: downloader threads over one page cache.**

`EnginePool` is the engine while it runs: the threads that handle replies, each some way into
`process_url`, and what they share. `EngineData.step` is one atomic step of it:

* `download` — `engine::download`, called by the application or by a processor;
* `complete` — the downloader answers an outstanding request; a thread enters `process_url` and
  erases the in-flight entry;
* `thread` — a thread asks its next question;
* `takeEffect` — an issued page-cache write reaches the storage;
* `tick` — time passes; the clock never goes back.

Every call that leaves the engine is kept in `log`, newest first. `EngineData.step` is a step whose
storage operations succeed, `EngineData.stepFaulty` one that may also be a page-cache read or write
that fails.
-/

import Std.Data.TreeMap.Lemmas
import Mathlib.Data.Nat.Notation
import Wookie.Engine.Reply

namespace Wookie

open Library

variable {Url : Type}

/-- Who handed a request to the downloader. -/
inductive Origin
  /-- `engine::download`. -/
  | direct
  /-- The link loop of `process_reply`. -/
  | link
  deriving DecidableEq

/-- A request the downloader has not answered yet. -/
structure Request (Url : Type) where
  url : Url
  /-- The document whose time is sent as `if-modified-since`. -/
  doc : Option Document
  origin : Origin

/-- What the engine does to its surroundings. -/
inductive EngineEvent (Url : Type)
  | fed (request : Request Url)
  | completed (request : Request Url) (error : Bool)
  | stored (doc : Document)
  | processing (reply : Response Url) (data : Str)
  | processed (functor : ProcessFunctor) (reply : Response Url) (data : Str) (type : DocumentType)

/-- What the downloader threads share. -/
structure EngineState (Url : Type) where
  now : DnetTime
  inflight : Std.TreeMap Str Document
  pageCache : Str → Option DataPointer
  /-- Every page-cache write issued, oldest first. -/
  writes : List Document
  /-- The places in `writes` of those that took effect. -/
  effective : List ℕ
  outstanding : List (Request Url)
  log : List (EngineEvent Url)

namespace EngineState

variable (s : EngineState Url)

/-- A request reaches the downloader. -/
def submit (request : Request Url) : EngineState Url :=
  { s with outstanding := s.outstanding ++ [request], log := .fed request :: s.log }

/-- The downloader answers the `n`-th outstanding request. -/
def answer (n : ℕ) (request : Request Url) (error : Bool) : EngineState Url :=
  { s with
    outstanding := s.outstanding.eraseIdx n
    log := .completed request error :: s.log }

/-- A write reaches the page cache. -/
def store (n : ℕ) (doc : Document) : EngineState Url :=
  { s with
    pageCache := Function.update s.pageCache doc.key (some (packDocument doc))
    effective := n :: s.effective
    log := .stored doc :: s.log }

end EngineState

/-- The answer to a thread's question, and the state after it. -/
def EngineOp.perform : (o : EngineOp Url) → EngineState Url →
    Option (EngineAnswer o × EngineState Url)
  | .currentTime, s => some (s.now, s)
  | .insertInflight key doc, s =>
    some (!s.inflight.contains key, { s with inflight := s.inflight.insertIfNew key doc })
  | .eraseInflight key, s =>
    some (s.inflight[key]?.getD (Document.new s.now), { s with inflight := s.inflight.erase key })
  | .writeDocument doc, s => some (s.writes.length, { s with writes := s.writes ++ [doc] })
  | .wait result, s => if result ∈ s.effective then some ((), s) else none
  | .readData key, s => some (s.pageCache key, s)
  | .feed url doc, s => some ((), s.submit ⟨url, doc, .link⟩)
  | .processing reply data, s => some ((), { s with log := .processing reply data :: s.log })
  | .process functor reply data type, s =>
    some ((), { s with log := .processed functor reply data type :: s.log })

/-- A wait that ends changes nothing. -/
theorem perform_wait {result : ℕ} {s s' : EngineState Url} {answer : Unit}
    (performed : (EngineOp.wait result).perform s = some (answer, s')) : s' = s := by
  simp only [EngineOp.perform] at performed
  split at performed
  · cases performed
    rfl
  · cases performed

/-- The engine while it runs. -/
abbrev EnginePool (Url : Type) := Pool (@EngineAnswer Url) (EngineState Url)

/-- One step of one thread. -/
def EnginePool.stepThread (i : ℕ) (pool : EnginePool Url) : Option (EnginePool Url) :=
  Pool.stepThread (fun _ => EngineOp.perform) i pool

/-- An atomic step of the engine. -/
inductive EngineAction (Url : Type)
  | download (url : Url)
  | complete (n : ℕ) (url : Url) (code : ℕ) (headers : List (Str × Str)) (data : Str)
      (error : Bool)
  | thread (i : ℕ)
  | takeEffect (n : ℕ)
  | tick (now : DnetTime)

/-- A page-cache read that ends with an error. -/
def EngineOp.failRead : (o : EngineOp Url) → EngineState Url →
    Option (EngineAnswer o × EngineState Url)
  | .readData _, s => some (none, s)
  | _, _ => none

/-- A step of the engine whose storage operations may fail. -/
inductive FaultyAction (Url : Type)
  | action (a : EngineAction Url)
  /-- An issued page-cache write ends with an error. -/
  | failWrite (n : ℕ)
  /-- The page-cache read of a thread ends with an error. -/
  | failRead (i : ℕ)

namespace FaultyAction

variable {condition : EnginePool Url → EngineAction Url → Prop} {pool : EnginePool Url}

/-- A condition on the steps that do not fail. -/
def Meets (condition : EnginePool Url → EngineAction Url → Prop) (pool : EnginePool Url) :
    FaultyAction Url → Prop
  | .action a => condition pool a
  | _ => True

/-- The condition, evaluated. -/
def meets (check : EnginePool Url → EngineAction Url → Bool) (pool : EnginePool Url) :
    FaultyAction Url → Bool
  | .action a => check pool a
  | _ => true

theorem Meets.of_eval {check : EnginePool Url → EngineAction Url → Bool}
    (sound : ∀ pool action, check pool action = true → condition pool action)
    {event : FaultyAction Url} (holds : FaultyAction.meets check pool event = true) :
    Meets condition pool event := by
  cases event with
  | action a => exact sound pool a holds
  | failWrite | failRead => trivial

theorem Meets.mono {weaker : EnginePool Url → EngineAction Url → Prop}
    (implies : ∀ pool action, condition pool action → weaker pool action)
    {event : FaultyAction Url} (holds : Meets condition pool event) : Meets weaker pool event := by
  cases event with
  | action a => exact implies pool a holds
  | failWrite | failRead => trivial

end FaultyAction

namespace EngineData

variable (e : EngineData Url)

/-- The reply to a request enters `process_url`. -/
def enter (n : ℕ) (request : Request Url) (reply : Response Url) (data : Str) (error : Bool)
    (pool : EnginePool Url) : EnginePool Url :=
  Pool.spawn { pool with shared := pool.shared.answer n request error }
    (e.processUrl reply data error)

/-- One step of the engine. -/
def step (pool : EnginePool Url) : EngineAction Url → Option (EnginePool Url)
  | .download url =>
    some { pool with shared := pool.shared.submit ⟨url, none, .direct⟩ }
  | .complete n url code headers data error =>
    pool.shared.outstanding[n]?.bind fun request =>
      EnginePool.stepThread pool.spawned
        (e.enter n request ⟨request.url, url, code, headers⟩ data error pool)
  | .thread i => pool.stepThread i
  | .takeEffect n =>
    if n ∈ pool.shared.effective then none
    else pool.shared.writes[n]?.map fun doc =>
      { pool with shared := pool.shared.store n doc }
  | .tick now =>
    if now.before pool.shared.now then none
    else some { pool with shared := { pool.shared with now := now } }

/-- One step of the engine whose storage operations may fail. -/
def stepFaulty (pool : EnginePool Url) : FaultyAction Url → Option (EnginePool Url)
  | .action a => e.step pool a
  | .failWrite n =>
    if n ∈ pool.shared.effective then none
    else pool.shared.writes[n]?.map fun _ =>
      { pool with shared := { pool.shared with effective := n :: pool.shared.effective } }
  | .failRead i => Pool.stepThread (fun _ => EngineOp.failRead) i pool

/-- The engine before its first step: a page cache left by earlier generations, nothing in
flight. -/
def initial (pageCache : Str → Option DataPointer) : EnginePool Url where
  shared :=
    { now := e.generationTime
      inflight := ∅
      pageCache := pageCache
      writes := []
      effective := []
      outstanding := []
      log := [] }
  threads _ := .pure ()
  spawned := 0

/-- A run of the engine, every step meeting `meets`. -/
abbrev Runs (meets : EnginePool Url → EngineAction Url → Prop)
    (pageCache : Str → Option DataPointer) (actions : List (EngineAction Url))
    (pool : EnginePool Url) : Prop :=
  Run e.step meets (e.initial pageCache) actions pool

/-! ### What a completion does -/

/-- What `process_url` goes on with after the erasure. -/
def afterErase (reply : Response Url) (data : Str) (error : Bool) (oldDoc : Document) :
    EngineProgram Url Unit :=
  if error then .pure ()
  else if reply.code ≠ notModified then e.processReply reply data
  else e.processReply reply oldDoc.data

theorem processUrl_eq (reply : Response Url) (data : Str) (error : Bool) :
    e.processUrl reply data error =
      .op (.eraseInflight (e.swarm.toString reply.requestUrl)) (e.afterErase reply data error) :=
  rfl

/-- The state after a completion: the request is gone, its in-flight entry erased. -/
def completedState (n : ℕ) (request : Request Url) (error : Bool) (s : EngineState Url) :
    EngineState Url :=
  { s.answer n request error with inflight := s.inflight.erase (e.swarm.toString request.url) }

/-- **All a completion can do.** -/
theorem step_complete {pool pool' : EnginePool Url} {n : ℕ} {url : Url} {code : ℕ}
    {headers : List (Str × Str)} {data : Str} {error : Bool}
    (stepped : e.step pool (.complete n url code headers data error) = some pool') :
    ∃ request, pool.shared.outstanding[n]? = some request ∧
      pool' = Pool.spawn { pool with shared := e.completedState n request error pool.shared }
        (e.afterErase ⟨request.url, url, code, headers⟩ data error
          (pool.shared.inflight[e.swarm.toString request.url]?.getD
            (Document.new pool.shared.now))) := by
  obtain ⟨request, found, stepped⟩ := Option.bind_eq_some_iff.mp stepped
  refine ⟨request, found, ?_⟩
  obtain ⟨o, next, answer, shared', thread, performed, rfl⟩ := Pool.stepThread_spec stepped
  have entered : (e.enter n request ⟨request.url, url, code, headers⟩ data error pool).threads
      pool.spawned = e.processUrl ⟨request.url, url, code, headers⟩ data error := by
    simp [enter, Pool.spawn]
  rw [entered, processUrl_eq] at thread
  cases thread
  cases performed
  simp only [enter, Pool.spawn, Function.update_idem]
  rfl

/-- **All a thread's step can do.** -/
theorem step_thread {pool pool' : EnginePool Url} {i : ℕ}
    (stepped : e.step pool (.thread i) = some pool') :
    ∃ o next answer shared', pool.threads i = .op o next ∧
      o.perform pool.shared = some (answer, shared') ∧
      pool' = { pool with
        shared := shared'
        threads := Function.update pool.threads i (next answer) } := by
  simp only [step, EnginePool.stepThread] at stepped
  exact Pool.stepThread_spec stepped

/-- **All a write's arrival can do.** -/
theorem step_takeEffect {pool pool' : EnginePool Url} {n : ℕ}
    (stepped : e.step pool (.takeEffect n) = some pool') :
    ∃ doc, pool.shared.writes[n]? = some doc ∧
      pool' = { pool with shared := pool.shared.store n doc } := by
  simp only [step] at stepped
  split at stepped
  · cases stepped
  · obtain ⟨doc, found, rfl⟩ := Option.map_eq_some_iff.mp stepped
    exact ⟨doc, found, rfl⟩

/-- **Time only passes.** -/
theorem step_tick {pool pool' : EnginePool Url} {now : DnetTime}
    (stepped : e.step pool (.tick now) = some pool') :
    now.before pool.shared.now = false ∧
      pool' = { pool with shared := { pool.shared with now := now } } := by
  simp only [step] at stepped
  split at stepped
  · cases stepped
  · rename_i later
    cases stepped
    exact ⟨by simpa using later, rfl⟩

/-- **All a failed write can do**: its wait ends. -/
theorem step_failWrite {pool pool' : EnginePool Url} {n : ℕ}
    (stepped : e.stepFaulty pool (.failWrite n) = some pool') :
    (∃ doc, pool.shared.writes[n]? = some doc) ∧
      pool' = { pool with
        shared := { pool.shared with effective := n :: pool.shared.effective } } := by
  simp only [stepFaulty] at stepped
  split at stepped
  · cases stepped
  · obtain ⟨doc, found, rfl⟩ := Option.map_eq_some_iff.mp stepped
    exact ⟨⟨doc, found⟩, rfl⟩

/-- **All a failed read can do**: the thread goes on without a file. -/
theorem step_failRead {pool pool' : EnginePool Url} {i : ℕ}
    (stepped : e.stepFaulty pool (.failRead i) = some pool') :
    ∃ key next, pool.threads i = .op (.readData key) next ∧
      pool' = { pool with
        threads := Function.update pool.threads i (next (none : Option DataPointer)) } := by
  have stepped : Pool.stepThread (fun _ => EngineOp.failRead) i pool = some pool' := stepped
  obtain ⟨o, next, answer, shared', thread, performed, rfl⟩ := Pool.stepThread_spec stepped
  cases o with
  | readData key =>
    cases performed
    exact ⟨key, next, thread, rfl⟩
  | _ => cases performed

end EngineData

/-! ### A crawler over plain URLs -/

namespace PlainUrl

/-- What stands between `://` and the path. -/
def authority (url : Str) : Str := ((url.dropWhile (· ≠ ':')).drop 3).takeWhile (· ≠ '/')

def scheme (url : Str) : Str := url.takeWhile (· ≠ ':')

/-- `scheme://host[:port]/path`, or a path relative to one. -/
def swarm : SwarmUrl Str where
  ofString := id
  toString := id
  isValid url := !url.isEmpty
  resolved base relative :=
    if (relative.dropWhile (· ≠ ':')).take 3 = "://".toList then relative
    else scheme base ++ "://".toList ++ authority base ++ relative
  scheme := scheme
  host url := (authority url).takeWhile (· ≠ ':')
  port url :=
    match (authority url).dropWhile (· ≠ ':') with
    | [] => none
    | _ :: digits => some (digits.foldl (fun n digit => 10 * n + (digit.toNat - '0'.toNat)) 0)

/-- Every page is one link: no filters, no processors. -/
def crawler : EngineData Str where
  swarm := swarm
  parsers := [fun _ data => [data]]
  filters := []
  urlFilters := []
  processors := []
  fallbackProcessors := []
  generationTime := ⟨1, 0⟩

end PlainUrl

/-! ### The in-flight map -/

section Inflight

variable {inflight : Std.TreeMap Str Document} {key other : Str} {doc : Document}

theorem insertIfNew_absent (absent : key ∉ inflight) :
    (inflight.insertIfNew key doc)[key]? = some doc := by
  rw [Std.TreeMap.getElem?_insertIfNew, if_pos ⟨Std.ReflCmp.compare_self, absent⟩]

/-- An insertion elsewhere, or on a key that is there, is not seen. -/
theorem insertIfNew_unmoved (present : other = key → key ∈ inflight) :
    (inflight.insertIfNew other doc)[key]? = inflight[key]? := by
  rw [Std.TreeMap.getElem?_insertIfNew, if_neg]
  rintro ⟨same, absent⟩
  have same : other = key := Std.LawfulEqCmp.eq_of_compare same
  exact absent (same ▸ present same)

end Inflight

end Wookie
