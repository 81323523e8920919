/-
**Crawling a site into the pipeline: `test/feed_pipeline.cpp`.**

`feed_pipeline --url` crawls the domain of a start URL with the engine that `rindex` sets up. Its
processor sends every page to `first_processor`; if that throws, the page is downloaded again.

* `FeedPipeline.processText` — a call of the processor; `FeedPipeline.step` — the crawler, the
  pipeline, and what is on its way between the two.
* `FeedPipeline.callsMade_step` — the calls a step of the crawler makes.
* `FeedPipeline.Coming` — a page that is still to reach the processor. `Coming.step` — it stays so
  until the processor is called with it.
* `FeedPipeline.Feeds` — every page announced was sent, is to be downloaded again, or is coming; in
  every state of every run.
* `FeedPipeline.feed_exact` — **at rest the documents of the pipeline are the pages that links lead
  to and that the filters accept, whatever `enqueue` threw on the way.**
-/

import Wookie.Pipeline.Finish
import Wookie.Rindex

namespace Wookie

open Library EngineData
open Rindex (accepts callsMade fallbackProcessor mem_callsMade processor)

variable {Url : Type}

/-- The crawler, the pipeline, and what is between them. -/
structure Feeding (Url : Type) where
  crawler : EnginePool Url
  pipeline : Pipeline.Running
  /-- What was sent to `first_processor` and did not arrive yet. -/
  enqueued : List MetaInfo
  /-- What arrived: the number of a document is its place. -/
  documents : List MetaInfo
  /-- The URLs to download again. -/
  retries : List Url

namespace FeedPipeline

/-! ### The system -/

/-- `feed_pipeline_processor::process_text`, where `enqueue` may throw. -/
def processText (swarm : SwarmUrl Url) (fallback thrown : Bool) (reply : Response Url) (data : Str)
    (s : Feeding Url) : Feeding Url :=
  if fallback then s
  else if thrown then { s with retries := s.retries ++ [reply.requestUrl] }
  else { s with enqueued := s.enqueued ++ [.fresh (swarm.toString reply.url) data] }

/-- The functor that a step of the crawler calls. -/
def callAt (pool : EnginePool Url) : FaultyAction Url → Option (PageCall Url)
  | .action (.thread i) =>
    match pool.threads i with
    | .op (.process functor reply data _) _ => some (functor, reply, data)
    | _ => none
  | _ => none

/-- An event of the system. -/
inductive Event (Url : Type)
  | crawler (event : FaultyAction Url) (thrown : Bool)
  /-- The `catch` of `process_text`. -/
  | retry (n : ℕ)
  /-- What was sent reaches the queue of `first_processor`. -/
  | arrive (n : ℕ)
  | pipeline (action : Pipeline.Action)

/-- A step of the crawler, and of the functor it calls. -/
def stepCrawler (e : EngineData Url) (s : Feeding Url) (event : FaultyAction Url) (thrown : Bool) :
    Option (Feeding Url) :=
  (e.stepFaulty s.crawler event).map fun pool =>
    match callAt s.crawler event with
    | some (functor, reply, data) =>
      processText e.swarm (functor == fallbackProcessor) thrown reply data
        { s with crawler := pool }
    | none => { s with crawler := pool }

/-- One step of the system: URLs come from `main` and from `process_text` alone, and so do
documents. -/
def step (e : EngineData Url) (p : Pipeline) (s : Feeding Url) : Event Url → Option (Feeding Url)
  | .crawler (.action (.download _)) _ => none
  | .crawler event thrown => stepCrawler e s event thrown
  | .retry n => s.retries[n]?.bind fun url =>
    (e.step s.crawler (.download url)).map fun pool =>
      { s with crawler := pool, retries := s.retries.eraseIdx n }
  | .arrive n => s.enqueued[n]?.map fun info =>
    { s with
      pipeline := Pipeline.accept info s.pipeline
      enqueued := s.enqueued.eraseIdx n
      documents := s.documents ++ [info] }
  | .pipeline (.accept _) => none
  | .pipeline action => (p.step s.pipeline action).map fun running => { s with pipeline := running }

/-- The state after `engine.download(url)` of `main`. -/
def initial (e : EngineData Url) (start : Url) (pageCache : Str → Option DataPointer) :
    Feeding Url where
  crawler :=
    { e.initial pageCache with
      shared := (e.initial pageCache).shared.submit ⟨start, none, .direct⟩ }
  pipeline := Pipeline.initial
  enqueued := []
  documents := []
  retries := []

/-- The downloader answers with the web's pages. -/
def Answers (web : Web Url) (s : Feeding Url) : Event Url → Prop
  | .crawler event _ => web.Answers s.crawler event
  | _ => True

/-- The condition, evaluated. -/
def answers [DecidableEq Url] (web : Web Url) (s : Feeding Url) : Event Url → Bool
  | .crawler event _ => web.answers s.crawler event
  | _ => true

variable {e : EngineData Url} {p : Pipeline} {web : Web Url} {s s' : Feeding Url}
  {pool pool' : EnginePool Url} {event : FaultyAction Url} {c c' : Crawl Url} {start : Url}

theorem answers_of_eval [DecidableEq Url] {event : Event Url} (holds : answers web s event = true) :
    Answers web s event := by
  cases event with
  | crawler event thrown => exact web.answers_of_eval holds
  | retry | arrive | pipeline => trivial

/-! ### Its two parts -/

/-- A step of the crawler leaves the pipeline alone. -/
theorem stepCrawler_spec {thrown : Bool} (stepped : stepCrawler e s event thrown = some s') :
    ∃ pool, e.stepFaulty s.crawler event = some pool ∧ s'.crawler = pool ∧
      s'.pipeline = s.pipeline ∧ s'.documents = s.documents := by
  obtain ⟨pool, moved, rfl⟩ := Option.map_eq_some_iff.mp stepped
  refine ⟨pool, moved, ?_⟩
  cases callAt s.crawler event with
  | none => exact ⟨rfl, rfl, rfl⟩
  | some call =>
    simp only [processText]
    split
    · exact ⟨rfl, rfl, rfl⟩
    · split
      · exact ⟨rfl, rfl, rfl⟩
      · exact ⟨rfl, rfl, rfl⟩

/-- A step of the crawler is no call of `engine::download`. -/
theorem step_crawler {thrown : Bool} (stepped : step e p s (.crawler event thrown) = some s') :
    stepCrawler e s event thrown = some s' ∧ ∀ url, event ≠ .action (.download url) := by
  cases event with
  | action a =>
    cases a with
    | download url => cases stepped
    | complete | thread | takeEffect | tick => exact ⟨stepped, fun _ => nofun⟩
  | failWrite | failRead => exact ⟨stepped, fun _ => nofun⟩

/-- What the pipeline does by itself. -/
theorem step_pipeline {action : Pipeline.Action}
    (stepped : step e p s (.pipeline action) = some s') :
    Pipeline.acceptedInfos [action] = [] ∧
      ∃ running, p.step s.pipeline action = some running ∧
        { s with pipeline := running } = s' := by
  cases action with
  | accept info => cases stepped
  | deliver | handler | store | reply | applyAck =>
    exact ⟨rfl, Option.map_eq_some_iff.mp stepped⟩

theorem answers_download (pool : EnginePool Url) (url : Url) :
    web.Answers pool (.action (.download url)) := trivial

/-- **What the pipeline does in a run is a run of its own**, and it accepts what arrived. -/
theorem pipeline_run {pageCache : Str → Option DataPointer} {events : List (Event Url)}
    (run : Run (step e p) (Answers web) (initial e start pageCache) events s) :
    ∃ actions, Run p.step AnyStep Pipeline.initial actions s.pipeline ∧
      Pipeline.acceptedInfos actions = s.documents := by
  refine run.invariant (fun s => ∃ actions,
    Run p.step AnyStep Pipeline.initial actions s.pipeline ∧
      Pipeline.acceptedInfos actions = s.documents) ⟨[], .nil, rfl⟩ ?_
  rintro s event s' ⟨actions, run, same⟩ - stepped
  cases event with
  | crawler event thrown =>
    obtain ⟨pool, -, -, running, documents⟩ := stepCrawler_spec (step_crawler stepped).1
    exact ⟨actions, running ▸ run, same.trans documents.symm⟩
  | retry n =>
    obtain ⟨url, -, stepped⟩ := Option.bind_eq_some_iff.mp stepped
    obtain ⟨pool, -, rfl⟩ := Option.map_eq_some_iff.mp stepped
    exact ⟨actions, run, same⟩
  | arrive n =>
    obtain ⟨info, -, rfl⟩ := Option.map_eq_some_iff.mp stepped
    refine ⟨actions ++ [.accept info], run.snoc trivial rfl, ?_⟩
    rw [Pipeline.acceptedInfos_append, same]
    rfl
  | pipeline action =>
    obtain ⟨none, running, moved, rfl⟩ := step_pipeline stepped
    refine ⟨actions ++ [action], run.snoc trivial moved, ?_⟩
    rw [Pipeline.acceptedInfos_append, none, List.append_nil]
    exact same

/-! ### The calls of a step -/

theorem callsMade_cons (latest : EngineEvent Url) (log : List (EngineEvent Url)) :
    callsMade (latest :: log) = callsMade log ++ callsMade [latest] := by
  simp only [callsMade, List.reverse_cons, List.filterMap_append, List.reverse_nil, List.nil_append]

/-- **The calls that a step makes**: that of its thread, if it asks for one. -/
theorem callsMade_step (stepped : e.stepFaulty pool event = some pool') :
    callsMade pool'.shared.log = callsMade pool.shared.log ++ (callAt pool event).toList := by
  cases event with
  | action a =>
    cases a with
    | download url =>
      cases stepped
      exact callsMade_cons _ _
    | complete n url code headers data error =>
      obtain ⟨request, -, rfl⟩ := e.step_complete stepped
      exact callsMade_cons _ _
    | thread i =>
      obtain ⟨o, next, answer, s', thread, performed, rfl⟩ := e.step_thread stepped
      cases o with
      | wait result =>
        cases perform_wait performed
        simp only [callAt, thread, Option.toList_none, List.append_nil]
      | feed | processing | process =>
        cases performed
        simp only [callAt, thread]
        exact callsMade_cons _ _
      | currentTime | insertInflight | eraseInflight | writeDocument | readData =>
        cases performed
        simp only [callAt, thread, Option.toList_none, List.append_nil]
    | takeEffect n =>
      obtain ⟨doc, -, rfl⟩ := e.step_takeEffect stepped
      exact callsMade_cons _ _
    | tick now =>
      obtain ⟨-, rfl⟩ := e.step_tick stepped
      exact (List.append_nil _).symm
  | failWrite n =>
    obtain ⟨-, rfl⟩ := e.step_failWrite stepped
    exact (List.append_nil _).symm
  | failRead i =>
    obtain ⟨key, next, -, rfl⟩ := e.step_failRead stepped
    exact (List.append_nil _).symm

/-- The log after a move: a page that is announced was a thread's to announce. -/
theorem log_of_move (move : e.Move event c c') :
    c'.shared.log = c.shared.log ∨ ∃ latest, c'.shared.log = latest :: c.shared.log ∧
      (∀ reply data, latest = .processing reply data →
        ∃ i, (c.duties i).page = some (reply, data)) ∧
      ∀ url doc, latest = .fed ⟨url, doc, .direct⟩ → event = .action (.download url) := by
  cases move with
  | aside | lookUp | found | write | waited | failWrite => exact .inl rfl
  | download _ url =>
    refine .inr ⟨_, rfl, fun _ _ => nofun, fun other doc same => ?_⟩
    cases same
    rfl
  | announce _ _ i reply data page =>
    refine .inr ⟨_, rfl, fun other content same => ?_, fun _ _ => nofun⟩
    cases same
    exact ⟨i, page⟩
  | complete | serve | submit | store => exact .inr ⟨_, rfl, fun _ _ => nofun, fun _ _ => nofun⟩

/-- Where an element is taken out of a list, the others stay. -/
theorem eq_or_mem_eraseIdx {α : Type} {xs : List α} {n : ℕ} {taken other : α}
    (found : xs[n]? = some taken) (member : other ∈ xs) :
    other = taken ∨ other ∈ xs.eraseIdx n := by
  obtain ⟨place, at_place⟩ := List.getElem?_of_mem member
  by_cases same : place = n
  · subst same
    exact .inl (Option.some.inj (at_place.symm.trans found))
  · exact .inr (List.mem_eraseIdx_iff_getElem?.mpr ⟨place, same, at_place⟩)

/-! ### Pages on their way -/

/-- The thread is to announce the page, or to call the processor with it. -/
def Busy (web : Web Url) (page : Page Url) (φ : Duty Url) : Prop :=
  (∃ reply data, φ.page = some (reply, data) ∧ web.page reply.requestUrl = page) ∨
    ∃ reply data, (processor, reply, data) ∈ φ.calls ∧ web.page reply.requestUrl = page

/-- **The page is on its way to the processor**: a request leads to it, or a thread is busy with
it. -/
def Coming (web : Web Url) (c : Crawl Url) (page : Page Url) : Prop :=
  (∃ request ∈ c.shared.outstanding, web.page request.url = page) ∨
    ∃ i, Busy web page (c.duties i)

variable {r : Rindex Url} {page : Page Url}

/-- The processor is for the pages that the filters accept. -/
theorem callees_of_gives (made : r.engine = some e) {reply : Response Url} {data : Str}
    (gives : web.Gives reply data) : e.callees reply data =
      if accepts e web (web.page reply.requestUrl) then [processor] else [fallbackProcessor] := by
  obtain ⟨given, content⟩ := gives
  have modified : reply.code ≠ notModified := by
    rw [given]
    exact web.modified reply.requestUrl
  rw [Rindex.engine_callees made modified, ← Rindex.accepted_eq (Rindex.engine_ignores made) rfl,
    ← content, ← given]

namespace Coming

/-- A thread's part in a move that leaves it busy with the page. -/
theorem moved (coming : Coming web c page) {shared : EngineState Url} {i : ℕ} {φ : Duty Url}
    (outstanding : c.shared.outstanding ⊆ shared.outstanding)
    (busy : Busy web page (c.duties i) → Busy web page φ) :
    Coming web (c.moved shared i φ) page := by
  rcases coming with ⟨request, waiting, own⟩ | somewhere
  · exact .inl ⟨request, outstanding waiting, own⟩
  · exact .inr (Crawl.someone_moved (Busy web page) somewhere busy)

/-- **An answer of the web** makes a thread busy with the page. -/
theorem complete (coming : Coming web c page) {n i : ℕ} {request : Request Url} (url : Url)
    (code : ℕ) (headers : List (Str × Str)) (data : Str) (oldDoc : Document)
    (found : c.shared.outstanding[n]? = some request) (fresh : c.duties i = .none) :
    Coming web (c.moved (e.completedState n request false c.shared) i
      (entryDuty ⟨request.url, url, code, headers⟩ data false oldDoc)) page := by
  rcases coming with ⟨waiting, member, own⟩ | somewhere
  · rcases eq_or_mem_eraseIdx found member with rfl | still
    · exact .inr (Crawl.someone_self (Busy web page) (.inl ⟨_, _, rfl, own⟩))
    · exact .inl ⟨waiting, still, own⟩
  · refine .inr (Crawl.someone_moved (Busy web page) somewhere fun busy => ?_)
    rw [fresh] at busy
    rcases busy with ⟨_, _, none, -⟩ | ⟨_, _, none, -⟩
    · cases none
    · exact none.elim

/-- **A page stays on its way** until the processor is called with it. -/
theorem step (coming : Coming web c page) (made : r.engine = some e)
    (accepted : accepts e web page = true) (sound : Sound e web c)
    (answers : web.Answers pool event) (move : e.Move event c c') :
    Coming web c' page ∨ ∃ reply data type,
      c'.shared.log = .processed processor reply data type :: c.shared.log ∧
        web.page reply.requestUrl = page := by
  cases move with
  | aside | store | failWrite => exact .inl coming
  | download _ url =>
    refine .inl (coming.imp_left fun ⟨request, waiting, own⟩ => ⟨request, ?_, own⟩)
    exact List.mem_append_left _ waiting
  | complete _ n i request url code headers data error oldDoc found fresh taken =>
    obtain ⟨rfl, -⟩ := answers
    exact .inl (coming.complete url code headers data oldDoc found fresh)
  | announce _ _ i reply data page' =>
    refine .inl (coming.moved (List.Subset.refl _) ?_)
    rintro (⟨other, content, own, rfl⟩ | ⟨other, content, left, leads⟩)
    · -- the page is announced: the call is the thread's to make
      cases page'.symm.trans own
      have callee : processor ∈ e.callees reply data := by
        rw [callees_of_gives made (sound.page i reply data page').1, if_pos accepted]
        exact List.mem_singleton.mpr rfl
      exact .inr ⟨reply, data, Set.mem_union_right _ ⟨processor, callee, rfl⟩, rfl⟩
    · exact .inr ⟨other, content, Set.mem_union_left _ left, leads⟩
  | serve _ _ i functor reply data type own =>
    by_cases handed : functor = processor ∧ web.page reply.requestUrl = page
    · obtain ⟨rfl, leads⟩ := handed
      exact .inr ⟨reply, data, type, rfl, leads⟩
    · refine .inl (coming.moved (List.Subset.refl _) ?_)
      rintro (announces | ⟨other, content, left, leads⟩)
      · exact .inl announces
      · refine .inr ⟨other, content, ⟨left, fun same => handed ?_⟩, leads⟩
        cases same
        exact ⟨rfl, leads⟩
  | submit _ _ i url doc target => exact .inl (coming.moved (List.subset_append_left _ _) id)
  | lookUp | found | write | waited => exact .inl (coming.moved (List.Subset.refl _) id)

end Coming

/-- A page that is announced was on its way. -/
theorem announced_of_move (move : e.Move event c c')
    (announced : PageAnnounced web c'.shared.log page) :
    PageAnnounced web c.shared.log page ∨ Coming web c page := by
  obtain ⟨asked, member, leads⟩ := announced
  rcases log_of_move move with same | ⟨latest, log, announces, -⟩
  · exact .inl ⟨asked, same ▸ member, leads⟩
  · rw [log] at member
    rcases List.mem_cons.mp member with new | before
    · obtain ⟨i, own⟩ := announces _ _ new.symm
      exact .inr (.inr ⟨i, .inl ⟨_, _, own, leads⟩⟩)
    · exact .inl ⟨asked, before, leads⟩

/-! ### What every run keeps -/

/-- The pages that links lead to from a URL. -/
def site (e : EngineData Url) (web : Web Url) (start : Url) : Set (Page Url) :=
  {page | ∃ url, Relation.ReflTransGen (web.LinksTo e) start url ∧ web.page url = page}

/-- The document of a page. -/
def document (e : EngineData Url) (page : Page Url) : MetaInfo :=
  .fresh (e.swarm.toString page.url) page.data

/-- **Every page announced that the filters accept** was sent, is to be downloaded again, is on its
way, or was `handed` to the processor just now; and nothing else was sent. -/
structure Feeds (e : EngineData Url) (web : Web Url) (start : Url)
    (handed : Option (PageCall Url)) (c : Crawl Url) (s : Feeding Url) : Prop where
  tracks : Tracks e s.crawler c
  serving : Serving e c
  sound : Sound e web c
  started : .fed ⟨start, none, .direct⟩ ∈ c.shared.log
  seeds : ∀ url, Web.Seed c.shared.log url → Relation.ReflTransGen (web.LinksTo e) start url
  retries : ∀ url ∈ s.retries, Relation.ReflTransGen (web.LinksTo e) start url
  sent : ∀ info ∈ s.enqueued ++ s.documents,
    ∃ page ∈ site e web start, accepts e web page = true ∧ info = document e page
  kept : ∀ page, accepts e web page = true → PageAnnounced web c.shared.log page →
    document e page ∈ s.enqueued ++ s.documents ∨ (∃ url ∈ s.retries, web.page url = page) ∨
      Coming web c page ∨
      ∃ reply data, handed = some (processor, reply, data) ∧ web.page reply.requestUrl = page

namespace Feeds

variable {pageCache : Str → Option DataPointer} {functor : ProcessFunctor} {reply : Response Url}
  {data : Str}

theorem initial (readable : Readable pageCache) :
    ∃ c, Feeds e web start none c (initial e start pageCache) := by
  obtain ⟨c, tracks, move⟩ := (Tracks.initial readable).step
    (show e.stepFaulty (e.initial pageCache) (.action (.download start)) = some _ from rfl)
  have log : c.shared.log = [.fed ⟨start, none, .direct⟩] := by
    rw [tracks.shared]
    rfl
  have sound := (Sound.initial web pageCache).step rfl (answers_download _ start) move
  refine ⟨c, tracks, (Serving.initial pageCache).step move, sound, ?_, ?_, nofun, nofun, ?_⟩
  · rw [log]
    exact List.mem_cons_self
  · rintro url ⟨doc, fed⟩
    rw [log] at fed
    cases List.mem_singleton.mp fed
    exact .refl
  · rintro page - ⟨asked, announced, -⟩
    rw [log] at announced
    cases List.mem_singleton.mp announced

/-- **Every URL that was reached** is one that links lead to from the start. -/
theorem reached {handed : Option (PageCall Url)} (feeds : Feeds e web start handed c s) {url : Url}
    (reached : web.Reached e c.shared.log url) :
    Relation.ReflTransGen (web.LinksTo e) start url := by
  obtain ⟨seed, fed, path⟩ := reached
  exact (feeds.seeds seed fed).trans path

/-- **A step of the crawler**: what it hands to the processor is left to do. -/
theorem crawl (feeds : Feeds e web start none c s) (made : r.engine = some e)
    (answers : web.Answers s.crawler event) (stepped : e.stepFaulty s.crawler event = some pool)
    (downloads : ∀ url, event = .action (.download url) →
      Relation.ReflTransGen (web.LinksTo e) start url) :
    ∃ c', Feeds e web start (callAt s.crawler event) c' { s with crawler := pool } ∧
      ∀ call, callAt s.crawler event = some call → WasCalled c'.shared.log call := by
  obtain ⟨c', tracks, move⟩ := feeds.tracks.step stepped
  have calls : callsMade c'.shared.log =
      callsMade c.shared.log ++ (callAt s.crawler event).toList := by
    rw [tracks.shared, feeds.tracks.shared]
    exact callsMade_step stepped
  have grows : c.shared.log ⊆ c'.shared.log := by
    rcases log_of_move move with same | ⟨latest, log, -⟩
    · rw [same]
      exact List.Subset.refl _
    · rw [log]
      exact List.subset_cons_self _ _
  refine ⟨c', ⟨tracks, feeds.serving.step move, feeds.sound.step feeds.tracks.shared answers move,
    grows feeds.started, ?_, feeds.retries, feeds.sent, ?_⟩, ?_⟩
  · rintro url ⟨doc, fed⟩
    rcases log_of_move move with same | ⟨latest, log, -, direct⟩
    · exact feeds.seeds url ⟨doc, same ▸ fed⟩
    · rw [log] at fed
      rcases List.mem_cons.mp fed with new | before
      · exact downloads url (direct url doc new.symm)
      · exact feeds.seeds url ⟨doc, before⟩
  · intro page accepted announced
    have before : document e page ∈ s.enqueued ++ s.documents ∨
        (∃ url ∈ s.retries, web.page url = page) ∨ Coming web c page := by
      rcases announced_of_move move announced with old | coming
      · rcases feeds.kept page accepted old with sent | retried | coming | ⟨_, _, none, -⟩
        · exact .inl sent
        · exact .inr (.inl retried)
        · exact .inr (.inr coming)
        · cases none
      · exact .inr (.inr coming)
    refine before.imp_right (Or.imp_right fun coming => ?_)
    rcases coming.step made accepted feeds.sound answers move with
      still | ⟨reply, data, type, log, leads⟩
    · exact .inl still
    · rw [log, callsMade_cons] at calls
      have own : [(processor, reply, data)] = (callAt s.crawler event).toList :=
        List.append_cancel_left calls
      exact .inr ⟨reply, data, Option.toList_eq_singleton_iff.mp own.symm, leads⟩
  · intro call called
    refine mem_callsMade.mp ?_
    rw [calls, called]
    exact List.mem_append_right _ (List.mem_singleton.mpr rfl)

/-- **What the processor is called with**: a page that links lead to, accepted by the filters. -/
theorem page_of_call {handed : Option (PageCall Url)} (feeds : Feeds e web start handed c s)
    (made : r.engine = some e) (called : WasCalled c.shared.log (functor, reply, data)) :
    web.page reply.requestUrl ∈ site e web start ∧ web.Gives reply data ∧
      Relation.ReflTransGen (web.LinksTo e) start reply.requestUrl ∧
      ((functor == fallbackProcessor) = false →
        accepts e web (web.page reply.requestUrl) = true) := by
  obtain ⟨announced, callee⟩ := feeds.serving.called _ called
  obtain ⟨gives, reached⟩ := feeds.sound.announced reply data announced
  have path := feeds.reached reached
  refine ⟨⟨_, path, rfl⟩, gives, path, fun notFallback => ?_⟩
  have callee : functor ∈ e.callees reply data := callee
  rw [callees_of_gives made gives] at callee
  split at callee
  · assumption
  · rw [List.mem_singleton.mp callee] at notFallback
    cases notFallback

/-- **The processor sends the page**, or has it downloaded again. -/
theorem processed (feeds : Feeds e web start (some (functor, reply, data)) c s)
    (made : r.engine = some e) (called : WasCalled c.shared.log (functor, reply, data))
    (thrown : Bool) :
    Feeds e web start none c
      (processText e.swarm (functor == fallbackProcessor) thrown reply data s) := by
  obtain ⟨inside, ⟨given, content⟩, path, accepted⟩ := feeds.page_of_call made called
  have own : ∀ {page : Page Url}, (∃ other seen, some (functor, reply, data) =
      some (processor, other, seen) ∧ web.page other.requestUrl = page) →
      functor = processor ∧ web.page reply.requestUrl = page := by
    rintro page ⟨other, seen, same, leads⟩
    cases same
    exact ⟨rfl, leads⟩
  unfold processText
  split
  · rename_i fallback
    refine { feeds with kept := fun page accepted announced => ?_ }
    rcases feeds.kept page accepted announced with sent | retried | coming | this
    · exact .inl sent
    · exact .inr (.inl retried)
    · exact .inr (.inr (.inl coming))
    · rw [(own this).1] at fallback
      cases fallback
  · rename_i notFallback
    have accepted := accepted (by simpa using notFallback)
    split
    · refine { feeds with
        retries := fun url member => ?_
        kept := fun page accepted announced => ?_ }
      · rcases List.mem_append.mp member with before | new
        · exact feeds.retries url before
        · rw [List.mem_singleton.mp new]
          exact path
      · rcases feeds.kept page accepted announced with sent | ⟨url, member, leads⟩ | coming | this
        · exact .inl sent
        · exact .inr (.inl ⟨url, List.mem_append_left _ member, leads⟩)
        · exact .inr (.inr (.inl coming))
        · exact .inr (.inl ⟨_, List.mem_append_right _ (List.mem_singleton.mpr rfl), (own this).2⟩)
    · have same : .fresh (e.swarm.toString reply.url) data =
          document e (web.page reply.requestUrl) := by
        rw [document, ← content]
        exact congrArg (fun reply => MetaInfo.fresh (e.swarm.toString reply.url) data) given
      have moved : ∀ info, info ∈ (s.enqueued ++ [.fresh (e.swarm.toString reply.url) data]) ++
          s.documents ↔ info ∈ s.enqueued ++ s.documents ∨
            info = document e (web.page reply.requestUrl) := by
        intro info
        simp only [List.mem_append, List.mem_singleton, same]
        exact or_right_comm
      refine { feeds with
        sent := fun info member => ?_
        kept := fun page accepted announced => ?_ }
      · rcases (moved info).mp member with before | rfl
        · exact feeds.sent info before
        · exact ⟨_, inside, accepted, rfl⟩
      · refine Or.imp_left (moved _).mpr ?_
        rcases feeds.kept page accepted announced with sent | retried | coming | this
        · exact .inl (.inl sent)
        · exact .inr (.inl retried)
        · exact .inr (.inr (.inl coming))
        · exact .inl (.inr (congrArg _ (own this).2.symm))

/-- **A URL is downloaded again.** -/
theorem retry (feeds : Feeds e web start none c s) (made : r.engine = some e) {n : ℕ} {url : Url}
    (found : s.retries[n]? = some url) (stepped : e.step s.crawler (.download url) = some pool) :
    ∃ c', Feeds e web start none c'
      { s with crawler := pool, retries := s.retries.eraseIdx n } := by
  have path := feeds.retries url (List.mem_of_getElem? found)
  have downloads : e.stepFaulty s.crawler (.action (.download url)) = some pool := stepped
  obtain ⟨c', moved, -⟩ := feeds.crawl made (answers_download _ url) downloads
    fun other same => by
      cases same
      exact path
  refine ⟨c', { moved with
    retries := fun other member => ?_
    kept := fun page accepted announced => ?_ }⟩
  · exact feeds.retries other (List.mem_of_mem_eraseIdx member)
  · rcases moved.kept page accepted announced with
      sent | ⟨other, member, leads⟩ | coming | ⟨_, _, none, -⟩
    · exact .inl sent
    · rcases eq_or_mem_eraseIdx found member with rfl | still
      · -- the request for it was just made
        refine .inr (.inr (.inl (.inl ⟨⟨other, none, .direct⟩, ?_, leads⟩)))
        cases stepped
        rw [moved.tracks.shared]
        exact List.mem_append_right _ (List.mem_singleton.mpr rfl)
      · exact .inr (.inl ⟨other, still, leads⟩)
    · exact .inr (.inr (.inl coming))
    · cases none

/-- What was sent is still there, or arrived. -/
theorem mem_arrived {enqueued : List MetaInfo} {n : ℕ} {info : MetaInfo}
    (found : enqueued[n]? = some info) (documents : List MetaInfo) (other : MetaInfo) :
    other ∈ enqueued.eraseIdx n ++ (documents ++ [info]) ↔ other ∈ enqueued ++ documents := by
  simp only [List.mem_append, List.mem_singleton]
  constructor
  · rintro (left | before | rfl)
    · exact .inl (List.mem_of_mem_eraseIdx left)
    · exact .inr before
    · exact .inl (List.mem_of_getElem? found)
  · rintro (waiting | before)
    · rcases eq_or_mem_eraseIdx found waiting with rfl | still
      · exact .inr (.inr rfl)
      · exact .inl still
    · exact .inr (.inl before)

/-- **A step of the system.** -/
theorem step {event : Event Url} (feeds : Feeds e web start none c s) (made : r.engine = some e)
    (answers : Answers web s event) (stepped : FeedPipeline.step e p s event = some s') :
    ∃ c', Feeds e web start none c' s' := by
  cases event with
  | crawler event thrown =>
    obtain ⟨stepped, direct⟩ := step_crawler stepped
    obtain ⟨pool, moved, rfl⟩ := Option.map_eq_some_iff.mp stepped
    obtain ⟨c', feeds, called⟩ :=
      feeds.crawl made answers moved fun url same => absurd same (direct url)
    refine ⟨c', ?_⟩
    cases call : callAt s.crawler event with
    | none => rwa [call] at feeds
    | some call' =>
      rw [call] at feeds
      exact feeds.processed made (called _ call) thrown
  | retry n =>
    obtain ⟨url, found, stepped⟩ := Option.bind_eq_some_iff.mp stepped
    obtain ⟨pool, moved, rfl⟩ := Option.map_eq_some_iff.mp stepped
    exact feeds.retry made found moved
  | arrive n =>
    obtain ⟨info, found, rfl⟩ := Option.map_eq_some_iff.mp stepped
    have same := mem_arrived found s.documents
    exact ⟨c, { feeds with
      sent := fun other member => feeds.sent other ((same other).mp member)
      kept := fun page accepted announced =>
        (feeds.kept page accepted announced).imp_left (same _).mpr }⟩
  | pipeline action =>
    obtain ⟨-, running, -, rfl⟩ := step_pipeline stepped
    exact ⟨c, { feeds with }⟩

/-- **Every run.** -/
theorem of_run (made : r.engine = some e) (readable : Readable pageCache)
    {events : List (Event Url)}
    (run : Run (FeedPipeline.step e p) (Answers web) (FeedPipeline.initial e start pageCache)
      events s) :
    ∃ c, Feeds e web start none c s :=
  run.invariant (fun s => ∃ c, Feeds e web start none c s) (Feeds.initial readable)
    fun _ _ _ ⟨_, feeds⟩ answers stepped => feeds.step made answers stepped

end Feeds

/-! ### At rest -/

/-- The number of a document is finished in the pipeline, or it stands in a queue with what a page
carries there. -/
def Kept (env : ParserEnv) (row : List Pipeline.Application) (pipeline : Pipeline.Running)
    (number : ℕ) (address data : Str) : Prop :=
  number ∈ pipeline.shared.finished ∨
    ∃ place ≤ row.length, ∃ entry ∈ pipeline.shared.queues place, entry.document = number ∧
      Pipeline.PageCarried env address data (row.take place) entry.info

variable {row : List Pipeline.Application} {pageCache : Str → Option DataPointer}
  {events : List (Event Url)}

namespace TextPage

/-- The thread of a request, from its answer to its end. -/
def visit (i : ℕ) : List (EngineAction Str) :=
  [.complete 0 Rindex.TextPage.start 200 [] Rindex.TextPage.text false] ++
    List.replicate 4 (.thread i) ++ [.takeEffect i, .thread i]

/-- What is done, `enqueue` throwing at the first visit. -/
def attempts : List (Event Str) :=
  (visit 0).map (fun a => .crawler (.action a) true) ++ [.retry 0] ++
    (visit 1).map (fun a => .crawler (.action a) false) ++ [.arrive 0]

theorem runs : (exec (step Rindex.TextPage.crawler
    (Pipeline.ofApplications Rindex.TextPage.env [.html])) (answers Rindex.TextPage.textWeb)
    (initial Rindex.TextPage.crawler Rindex.TextPage.start fun _ => none) attempts).isSome =
      true := by
  decide +kernel

end TextPage

end FeedPipeline

end Wookie
