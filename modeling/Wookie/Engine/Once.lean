/-
**A page is fetched once in a generation.**

Two guards keep the link loop off a page it has: the in-flight map, until the reply comes, and the
time of the copy in the page cache, once that is written. `process_url` gives up the first before
`process_reply` issues the write; until the write takes effect a link to the page finds neither.

* `Crawling` — while nothing but the start URL is downloaded directly, no request of
  `engine::download` erases an entry.
* `Fetched` — in a run where links to a fetched page are only looked up once a copy of it is stored
  (`Settled`), no thread is cleared to submit a fetched page, every stored copy being of this
  generation.
* `fetched_once` — so link discovery submits no page that was fetched.
-/

import Wookie.Engine.Inflight

namespace Wookie

open Library

variable {Url : Type}

namespace EngineData

variable (e : EngineData Url) (key : Str)

/-! ### The property -/

/-- A download of the key completed without error. -/
def completes : EngineEvent Url → Bool
  | .completed request error => !error && e.requests key request
  | _ => false

/-- Link discovery issued a download of the key. -/
def discovers : EngineEvent Url → Bool
  | .fed request => e.linkRequests key request
  | _ => false

/-- A copy of the key reached the page cache. -/
def stores : EngineEvent Url → Bool
  | .stored doc => doc.key == key
  | _ => false

/-- **No download of the key is discovered after one completed.** -/
def FetchedOnce (pool : EnginePool Url) : Prop :=
  pool.shared.log.Pairwise fun later earlier =>
    ¬ (e.discovers key later = true ∧ e.completes key earlier = true)

/-- Not a call of `engine::download`. -/
def Discovery : EngineAction Url → Prop
  | .download _ => False
  | _ => True

/-- **The condition on a step**: a thread looks a fetched page up only after a copy of it took
effect in the page cache. -/
def Settled (pool : EnginePool Url) : EngineAction Url → Prop
  | .thread i => ∀ next, pool.threads i = .op (.readData key) next →
      pool.shared.log.any (e.completes key) = true → pool.shared.log.any (stores key) = true
  | _ => True

/-- Both conditions, evaluated. -/
def settled (pool : EnginePool Url) : EngineAction Url → Bool
  | .download _ => false
  | .thread i =>
    match pool.threads i with
    | .op (.readData other) _ => other != key || !pool.shared.log.any (e.completes key) ||
        pool.shared.log.any (stores key)
    | _ => true
  | _ => true

/-- The engine after `download(start)`. -/
def started (pageCache : Str → Option DataPointer) (start : Url) : EnginePool Url :=
  { e.initial pageCache with
    shared := (e.initial pageCache).shared.submit ⟨start, none, .direct⟩ }

variable {e key} {pool pool' : EnginePool Url} {action : EngineAction Url}

theorem settled_of_eval (holds : e.settled key pool action = true) :
    Discovery action ∧ e.Settled key pool action := by
  cases action with
  | download url => cases holds
  | thread i =>
    refine ⟨trivial, fun next thread done => ?_⟩
    simpa [settled, thread, done] using holds
  | _ => exact ⟨trivial, trivial⟩

/-! ### The start URL -/

/-- **Before the start URL is answered nothing runs, and after that every request is of the link
loop.** -/
def Crawling (pool : EnginePool Url) : Prop :=
  ((∀ i, pool.threads i = .pure ()) ∧ (∀ key, key ∉ pool.shared.inflight) ∧
    pool.shared.outstanding.length ≤ 1) ∨
  ∀ request ∈ pool.shared.outstanding, request.origin = .link

theorem crawling_started (pageCache : Str → Option DataPointer) (start : Url) :
    Crawling (e.started pageCache start) :=
  Or.inl ⟨fun _ => rfl, fun _ member => by simp [started, initial, EngineState.submit] at member,
    Nat.le_refl 1⟩

theorem Crawling.separate (crawling : Crawling pool) : e.Separate key pool action := by
  cases action with
  | complete n url code headers data error =>
    intro request found origin _
    rcases crawling with ⟨_, nothing, _⟩ | links
    · exact nothing key
    · rw [links request (List.mem_of_getElem? found)] at origin
      cases origin
  | _ => trivial

theorem Crawling.step (crawling : Crawling pool) (discovery : Discovery action)
    (stepped : e.step pool action = some pool') : Crawling pool' := by
  cases action with
  | download url => exact discovery.elim
  | complete n url code headers data error =>
    obtain ⟨request, found, rfl⟩ := e.step_complete stepped
    refine Or.inr fun other member => ?_
    have old : other ∈ pool.shared.outstanding.eraseIdx n := member
    rcases crawling with ⟨_, _, alone⟩ | links
    · obtain ⟨bound, _⟩ := List.getElem?_eq_some_iff.mp found
      have left : (pool.shared.outstanding.eraseIdx n).length = 0 := by
        rw [List.length_eraseIdx_of_lt bound]
        omega
      rw [List.length_eq_zero_iff.mp left] at old
      cases old
    · exact links other (List.mem_of_mem_eraseIdx old)
  | thread i =>
    obtain ⟨o, next, answer, shared', thread, performed, rfl⟩ := e.step_thread stepped
    rcases crawling with ⟨nothing, _, _⟩ | links
    · rw [nothing i] at thread
      cases thread
    · refine Or.inr ?_
      cases o with
      | feed url doc =>
        cases performed
        intro request member
        rcases List.mem_append.mp member with old | new
        · exact links request old
        · rw [List.mem_singleton.mp new]
      | wait result =>
        obtain rfl := perform_wait performed
        exact links
      | _ =>
        cases performed
        exact links
  | takeEffect n =>
    obtain ⟨doc, _, rfl⟩ := e.step_takeEffect stepped
    exact crawling
  | tick now =>
    obtain ⟨_, rfl⟩ := e.step_tick stepped
    exact crawling

/-! ### The copies of this generation -/

/-- The protocol of writing only copies of this generation, by a clock that shows it. -/
def freshWrites (e : EngineData Url) : Typestate (@EngineAnswer Url) Unit :=
  .stateless
    (fun
      | .writeDocument doc => doc.ts.before e.generationTime = false
      | _ => True)
    (fun
      | .currentTime, now => DnetTime.before now e.generationTime = false
      | _, _ => True)

theorem freshWrites_neutral {data : Str} : Neutral e.freshWrites data () where
  time := ⟨trivial, fun _ => rfl⟩
  write _ clock _ := ⟨clock, fun _ => rfl⟩
  wait _ := ⟨trivial, fun _ => rfl⟩
  processing _ := ⟨trivial, fun _ => rfl⟩
  process _ _ _ := ⟨trivial, fun _ => rfl⟩

theorem afterErase_freshWrites (reply : Response Url) (data : Str) (error : Bool)
    (oldDoc : Document) :
    Follows e.freshWrites (fun _ => True) () (e.afterErase reply data error oldDoc) := by
  have each : ∀ content, Follows e.freshWrites (fun _ => True) () (e.processReply reply content) :=
    fun content => (freshWrites_neutral.processReply fun _ _ =>
      requestLink_follows freshWrites_neutral (fun _ => trivial) trivial trivial
        fun _ _ _ _ _ => ⟨trivial, trivial⟩).mono fun _ _ => trivial
  unfold afterErase
  split
  · trivial
  · split
    · exact each data
    · exact each oldDoc.data

/-- **Every copy written in this generation carries a time of it**, and is what the page cache holds
once it took effect. -/
structure Fresh (e : EngineData Url) (pool : EnginePool Url) : Prop where
  keeps : pool.Keeps e.freshWrites fun _ => ()
  clock : pool.shared.now.before e.generationTime = false
  writes : ∀ doc ∈ pool.shared.writes, doc.ts.before e.generationTime = false
  stored : ∀ key, pool.shared.log.any (stores key) = true →
    ∃ doc, pool.shared.pageCache key = some (packDocument doc) ∧
      doc.ts.before e.generationTime = false

namespace Fresh

theorem started (e : EngineData Url) (pageCache : Str → Option DataPointer) (start : Url) :
    Fresh e (e.started pageCache start) where
  keeps _ := trivial
  clock := DnetTime.before_irrefl _
  writes _ member := nomatch member
  stored _ some_stored := by
    simp [EngineData.started, initial, EngineState.submit, stores] at some_stored

theorem thread {i : ℕ} {o : EngineOp Url} {next : EngineAnswer o → EngineProgram Url Unit}
    {answer : EngineAnswer o} {shared' : EngineState Url} (fresh : Fresh e pool)
    (thread : pool.threads i = .op o next)
    (performed : o.perform pool.shared = some (answer, shared')) :
    Fresh e
      { pool with shared := shared', threads := Function.update pool.threads i (next answer) } := by
  have may := fresh.keeps.may thread
  have expected : e.freshWrites.expects () o answer := by
    cases o with
    | currentTime =>
      cases performed
      exact fresh.clock
    | _ => trivial
  have keeps := fresh.keeps.step_unit thread expected shared'
  cases o with
  | writeDocument doc =>
    cases performed
    refine ⟨keeps, fresh.clock, fun written member => ?_, fresh.stored⟩
    rcases List.mem_append.mp member with old | new
    · exact fresh.writes written old
    · rw [List.mem_singleton.mp new]
      exact may
  | wait result =>
    obtain rfl := perform_wait performed
    exact ⟨keeps, fresh.clock, fresh.writes, fresh.stored⟩
  | _ =>
    cases performed
    exact ⟨keeps, fresh.clock, fresh.writes, fresh.stored⟩

/-- A write that takes effect puts its copy where its key is. -/
theorem takeEffect {n : ℕ} {doc : Document} (fresh : Fresh e pool)
    (found : pool.shared.writes[n]? = some doc) :
    Fresh e { pool with shared := pool.shared.store n doc } where
  keeps := fresh.keeps
  clock := fresh.clock
  writes := fresh.writes
  stored key some_stored := by
    by_cases own : doc.key = key
    · subst own
      exact ⟨doc, by simp [EngineState.store], fresh.writes doc (List.mem_of_getElem? found)⟩
    · have before : pool.shared.log.any (stores key) = true := by
        simpa [EngineState.store, stores, own] using some_stored
      obtain ⟨copy, held, new⟩ := fresh.stored key before
      exact ⟨copy, by simp [EngineState.store, Ne.symm own, held], new⟩

theorem step (fresh : Fresh e pool) (stepped : e.step pool action = some pool') :
    Fresh e pool' := by
  cases action with
  | download url =>
    cases stepped
    exact ⟨fresh.keeps, fresh.clock, fresh.writes, fresh.stored⟩
  | complete n url code headers data error =>
    obtain ⟨request, _, rfl⟩ := e.step_complete stepped
    exact ⟨Pool.Keeps.spawn_unit fresh.keeps (afterErase_freshWrites _ _ _ _), fresh.clock,
      fresh.writes, fresh.stored⟩
  | thread i =>
    obtain ⟨o, next, answer, shared', thread, performed, rfl⟩ := e.step_thread stepped
    exact fresh.thread thread performed
  | takeEffect n =>
    obtain ⟨doc, found, rfl⟩ := e.step_takeEffect stepped
    exact fresh.takeEffect found
  | tick now =>
    obtain ⟨later, rfl⟩ := e.step_tick stepped
    exact ⟨fresh.keeps, DnetTime.not_before_trans fresh.clock later, fresh.writes, fresh.stored⟩

end Fresh

/-! ### No thread is cleared for a fetched page -/

/-- An event is no discovery after a completion. -/
theorem once_cons {log : List (EngineEvent Url)} {event : EngineEvent Url}
    (once : log.Pairwise fun later earlier =>
      ¬ (e.discovers key later = true ∧ e.completes key earlier = true))
    (quiet : e.discovers key event = true → ¬ log.any (e.completes key) = true) :
    (event :: log).Pairwise fun later earlier =>
      ¬ (e.discovers key later = true ∧ e.completes key earlier = true) :=
  List.pairwise_cons.mpr ⟨fun earlier member both =>
    quiet both.1 (List.any_eq_true.mpr ⟨earlier, member, both.2⟩), once⟩

/-- **What settled runs keep**: once the key is fetched, no thread is cleared to submit it. -/
structure Fetched (e : EngineData Url) (key : Str) (phases : ℕ → LinkPhase)
    (pool : EnginePool Url) : Prop where
  exclusive : Exclusive e key phases pool
  fetched : pool.shared.log.any (e.completes key) = true → ∀ i, phases i ≠ .cleared
  once : e.FetchedOnce key pool

namespace Fetched

variable {phases : ℕ → LinkPhase}

theorem started (e : EngineData Url) (key : Str) (pageCache : Str → Option DataPointer)
    (start : Url) : Fetched e key (fun _ => .idle) (e.started pageCache start) where
  exclusive := (Exclusive.initial e key pageCache).download start
  fetched _ _ := fun equal => nomatch equal
  once := List.pairwise_singleton _ _

/-- A thread's step is a completion of nothing, and a discovery only where it submits. -/
theorem perform_log (e : EngineData Url) (key : Str) {o : EngineOp Url} {s s' : EngineState Url}
    {answer : EngineAnswer o}
    (performed : o.perform s = some (answer, s')) :
    s'.log.any (e.completes key) = s.log.any (e.completes key) ∧
    (s'.log = s.log ∨ ∃ event, s'.log = event :: s.log ∧ (e.discovers key event = true →
      ∃ url doc, o = .feed url doc ∧ e.swarm.toString url = key)) := by
  cases o with
  | feed url doc =>
    cases performed
    refine ⟨rfl, Or.inr ⟨_, rfl, fun own => ⟨url, doc, rfl, ?_⟩⟩⟩
    exact (linkRequests_iff.mp own).2
  | processing reply data =>
    cases performed
    exact ⟨rfl, Or.inr ⟨_, rfl, fun own => nomatch own⟩⟩
  | process functor reply data type =>
    cases performed
    exact ⟨rfl, Or.inr ⟨_, rfl, fun own => nomatch own⟩⟩
  | wait result =>
    obtain rfl := perform_wait performed
    exact ⟨rfl, Or.inl rfl⟩
  | _ =>
    cases performed
    exact ⟨rfl, Or.inl rfl⟩

/-- **Only a read clears a thread**, and it does not clear one that finds a copy of this
generation. -/
theorem not_cleared {o : EngineOp Url} {s s' : EngineState Url} {answer : EngineAnswer o}
    {φ : LinkPhase} (performed : o.perform s = some (answer, s')) (before : φ ≠ .cleared)
    (held : o = .readData key → ∃ doc, s.pageCache key = some (packDocument doc) ∧
      doc.ts.before e.generationTime = false) :
    (e.linkState key).after φ o answer ≠ .cleared := by
  cases o with
  | insertInflight other doc =>
    simp only [linkState, afterInsert]
    split
    · split
      · intro equal
        cases equal
      · exact before
    · exact before
  | readData other =>
    cases performed
    by_cases own : other = key
    · subst own
      obtain ⟨doc, found, fresh⟩ := held rfl
      cases φ with
      | idle => simp [linkState, afterRead]
      | inserted =>
        simp only [linkState, if_true, found]
        rw [afterRead_fresh (unpackDocument_packDocument doc) fresh]
        intro equal
        cases equal
      | cleared => exact absurd rfl before
    · simpa only [linkState, own, if_false] using before
  | feed url doc =>
    simp only [linkState]
    split
    · intro equal
      cases equal
    · exact before
  | _ => exact before

theorem thread {i : ℕ} {o : EngineOp Url} {next : EngineAnswer o → EngineProgram Url Unit}
    {answer : EngineAnswer o} {shared' : EngineState Url} (fetched : Fetched e key phases pool)
    (fresh : Fresh e pool) (thread : pool.threads i = .op o next)
    (performed : o.perform pool.shared = some (answer, shared'))
    (settled : e.Settled key pool (.thread i)) :
    Fetched e key (Function.update phases i ((e.linkState key).after (phases i) o answer))
      { pool with shared := shared', threads := Function.update pool.threads i (next answer) } := by
  obtain ⟨completed, log⟩ := perform_log e key performed
  refine ⟨fetched.exclusive.thread thread performed, fun completed' j => ?_, ?_⟩
  · have done : pool.shared.log.any (e.completes key) = true := completed.symm.trans completed'
    by_cases mine : j = i
    · subst mine
      rw [Function.update_self]
      refine not_cleared performed (fetched.fetched done j) fun reads => ?_
      subst reads
      exact fresh.stored key (settled next thread done)
    · rw [Function.update_of_ne mine]
      exact fetched.fetched done j
  · show shared'.log.Pairwise _
    rcases log with same | ⟨event, grown, submits⟩
    · rw [same]
      exact fetched.once
    · rw [grown]
      refine once_cons fetched.once fun discovered done => ?_
      -- only a cleared thread submits the key
      obtain ⟨url, doc, rfl, own⟩ := submits discovered
      exact fetched.fetched done i (fetched.exclusive.keeps.may thread own)

theorem step (fetched : Fetched e key phases pool) (fresh : Fresh e pool)
    (separate : e.Separate key pool action) (discovery : Discovery action)
    (settled : e.Settled key pool action) (stepped : e.step pool action = some pool') :
    ∃ phases', Fetched e key phases' pool' := by
  cases action with
  | download url => exact discovery.elim
  | complete n url code headers data error =>
    obtain ⟨request, found, rfl⟩ := e.step_complete stepped
    refine ⟨_, fetched.exclusive.complete found (separate request found)
      (afterErase_follows _ _ _ _), fun done i holds => ?_,
      once_cons fetched.once fun own => by cases own⟩
    have before : phases i = .cleared := by
      by_cases new : i = pool.spawned
      · rw [new, Function.update_self] at holds
        cases holds
      · rwa [Function.update_of_ne new] at holds
    by_cases own : e.requests key request = true
    · obtain ⟨idle, _⟩ := fetched.exclusive.released found own fun origin =>
        separate request found origin own
      rw [idle i] at before
      cases before
    · refine fetched.fetched ?_ i before
      simpa [Pool.spawn, completedState, EngineState.answer, completes, own] using done
  | thread i =>
    obtain ⟨o, next, answer, shared', thread, performed, rfl⟩ := e.step_thread stepped
    exact ⟨_, fetched.thread fresh thread performed settled⟩
  | takeEffect n =>
    obtain ⟨doc, _, rfl⟩ := e.step_takeEffect stepped
    exact ⟨phases, fetched.exclusive.frame fetched.exclusive.keeps (fun _ => id) rfl rfl,
      fetched.fetched, once_cons fetched.once fun own => by cases own⟩
  | tick now =>
    obtain ⟨_, rfl⟩ := e.step_tick stepped
    exact ⟨phases, fetched.exclusive.frame fetched.exclusive.keeps (fun _ => id) rfl rfl,
      fetched.fetched, fetched.once⟩

end Fetched

/-- **Link discovery issues no download of a page after one completed**, in every run of the start
URL in which links to a fetched page are looked up once a copy of it is stored. -/
theorem fetched_once (e : EngineData Url) (key : Str) (pageCache : Str → Option DataPointer)
    (start : Url) (actions : List (EngineAction Url)) (pool : EnginePool Url)
    (run : Run e.step (fun pool action => Discovery action ∧ e.Settled key pool action)
      (e.started pageCache start) actions pool) :
    e.FetchedOnce key pool := by
  obtain ⟨_, _, phases, fetched⟩ := run.invariant
    (fun pool => Crawling pool ∧ Fresh e pool ∧ ∃ phases, Fetched e key phases pool)
    ⟨crawling_started pageCache start, Fresh.started e pageCache start, _,
      Fetched.started e key pageCache start⟩
    fun pool action pool' ⟨crawling, fresh, _, fetched⟩ ⟨discovery, settled⟩ stepped =>
      ⟨crawling.step discovery stepped, fresh.step stepped,
        fetched.step fresh crawling.separate discovery settled stepped⟩
  exact fetched.once

/-! ### A redirect that links back -/

namespace LinkBack

def page : Str := "http://a/".toList

/-- The answer to the start URL comes from elsewhere and links back to it; its thread goes on until
it is about to look the link up. -/
def answered : List (EngineAction Str) :=
  [.complete 0 "http://c/".toList 200 [] page false] ++ List.replicate 6 (.thread 0)

/-- The copy stored by the original URL takes effect before the link is looked up. -/
theorem runs : (exec PlainUrl.crawler.step (PlainUrl.crawler.settled page)
    (PlainUrl.crawler.started (fun _ => none) page)
    (answered ++ [.takeEffect 1, .thread 0, .takeEffect 0])).isSome = true := rfl

/-- The link is looked up at once. -/
theorem runs_at_once : (exec PlainUrl.crawler.step
    (fun _ action => action matches .complete .. | .thread _)
    (PlainUrl.crawler.started (fun _ => none) page)
    (answered ++ [.thread 0, .thread 0])).isSome = true := rfl

end LinkBack

theorem fetched_once_linkBack :
    PlainUrl.crawler.FetchedOnce LinkBack.page (endState LinkBack.runs) :=
  fetched_once _ _ _ _ _ _ (Run.of_endState (fun _ _ => settled_of_eval) LinkBack.runs)

/-- A redirected page that links to its own original URL is fetched again. -/
theorem fetched_again :
    ¬ ∀ (e : EngineData Str) (key : Str) (pageCache : Str → Option DataPointer) (start : Str)
      (actions : List (EngineAction Str)) (pool : EnginePool Str),
      Run e.step (fun _ action => Discovery action) (e.started pageCache start) actions pool →
      e.FetchedOnce key pool := by
  intro once
  have discovery : ∀ (pool : EnginePool Str) (action : EngineAction Str),
      (action matches .complete .. | .thread _) = true → Discovery action :=
    fun _ action holds => by
      cases action with
      | download url => cases holds
      | _ => trivial
  have run := Run.of_endState discovery LinkBack.runs_at_once
  have pairwise := once _ LinkBack.page _ _ _ _ run
  have first := (List.pairwise_cons.mp pairwise).1
  exact first (.completed ⟨LinkBack.page, none, .direct⟩ false)
    (List.mem_cons_of_mem _ List.mem_cons_self) ⟨rfl, rfl⟩

end EngineData

end Wookie
