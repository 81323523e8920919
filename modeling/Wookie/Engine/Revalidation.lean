/-
**What a `304 Not Modified` answer is processed with.**

A stale page is requested again with the time of its cached copy, and `found_in_page_cache` puts the
copy into the in-flight map, for `process_url` to take it out when the answer is `304`. The URL is
in the map already, with the empty document of the first insertion, and `std::map::insert` keeps
what it finds: the copy is never there.

* `EmptyCopies` — as long as every stale copy of a URL read from the page cache is empty, its entry
  and the copies of its requests are.
* `not_modified_content` — so a `304` is processed with the cached content in every run where that
  content is empty; where no request of `engine::download` erases the URL's entry, in no other.
-/

import Wookie.Engine.Inflight

namespace Wookie

open Library

variable {Url : Type}

namespace EngineData

variable (e : EngineData Url)

/-! ### The content of a reply -/

/-- What a question hands on of the page is `content`. -/
def Carries (content : Str) : EngineOp Url → Prop
  | .writeDocument doc => doc.data = content
  | .processing _ data => data = content
  | .process _ _ data _ => data = content
  | _ => True

/-- The protocol of handing on one content. -/
def carrying (content : Str) : Typestate (@EngineAnswer Url) Unit :=
  .stateless (Carries content) fun _ _ => True

theorem carrying_neutral {content : Str} :
    Neutral (carrying content : Typestate (@EngineAnswer Url) Unit) content () where
  time := ⟨trivial, fun _ => rfl⟩
  write _ _ _ := ⟨rfl, fun _ => rfl⟩
  wait _ := ⟨trivial, fun _ => rfl⟩
  processing _ := ⟨rfl, fun _ => rfl⟩
  process _ _ _ := ⟨rfl, fun _ => rfl⟩

variable {e} {reply : Response Url} {data : Str}

/-- **The page cache and every functor get the content `process_reply` was called with.** -/
theorem processReply_carries {o : EngineOp Url}
    (occurs : Program.Occurs o (e.processReply reply data)) : Carries data o :=
  (carrying_neutral.processReply fun _ _ =>
    requestLink_follows carrying_neutral (fun _ => trivial) trivial trivial
      fun _ _ _ _ _ => ⟨trivial, trivial⟩).of_occurs occurs

/-- **The content can be read off the program.** -/
theorem processReply_eq_iff {content : Str} :
    e.processReply reply data = e.processReply reply content ↔ data = content := by
  constructor
  · intro same
    have first : EngineOp.processing reply data = EngineOp.processing reply content :=
      (Program.op.inj same).1
    exact (EngineOp.processing.inj first).2
  · exact congrArg _

variable (e)

/-! ### The property -/

/-- Processing goes on with this content. -/
def ProcessedAs (pool pool' : EnginePool Url) (reply : Response Url) (content : Str) : Prop :=
  pool'.threads pool.spawned = e.processReply reply content ∧
    ∀ o, Program.Occurs o (pool'.threads pool.spawned) → Carries content o

/-- The downloader answers the `n`-th outstanding request with `304`; the request was made for a
stale copy of `key`. -/
structure AnsweredNotModified (key : Str) (doc : Document) (n : ℕ) (reply : Response Url)
    (pool pool' : EnginePool Url) : Prop where
  request : ∃ origin, pool.shared.outstanding[n]? = some ⟨reply.requestUrl, some doc, origin⟩
  own : e.swarm.toString reply.requestUrl = key
  code : reply.code = notModified
  stepped : ∃ data, e.step pool (.complete n reply.url reply.code reply.headers data false) =
    some pool'

/-- **`process_url` processes every `304` for `key` with the cached content.** -/
def Revalidates (key : Str) (pool : EnginePool Url) : Prop :=
  ∀ doc n reply pool', e.AnsweredNotModified key doc n reply pool pool' →
    e.ProcessedAs pool pool' reply doc.data

variable {e} {key : Str}

/-- A `304` is processed with the in-flight entry. -/
theorem AnsweredNotModified.threads {doc : Document} {n : ℕ} {reply : Response Url}
    {pool pool' : EnginePool Url} (answered : e.AnsweredNotModified key doc n reply pool pool') :
    pool'.threads pool.spawned = e.processReply reply
      (pool.shared.inflight[key]?.getD (Document.new pool.shared.now)).data := by
  obtain ⟨data, stepped⟩ := answered.stepped
  obtain ⟨origin, found⟩ := answered.request
  obtain ⟨request, found', rfl⟩ := e.step_complete stepped
  cases found.symm.trans found'
  have own := answered.own
  have code := answered.code
  obtain ⟨requestUrl, url, replyCode, headers⟩ := reply
  subst own
  subst code
  simp [Pool.spawn, afterErase]

/-- Whether the content is the right one is a question about the entry alone. -/
theorem AnsweredNotModified.processedAs_iff {doc : Document} {n : ℕ} {reply : Response Url}
    {pool pool' : EnginePool Url} (answered : e.AnsweredNotModified key doc n reply pool pool') :
    e.ProcessedAs pool pool' reply doc.data ↔
      (pool.shared.inflight[key]?.getD (Document.new pool.shared.now)).data = doc.data := by
  unfold ProcessedAs
  rw [answered.threads]
  constructor
  · exact fun processed => processReply_eq_iff.mp processed.1
  · intro same
    rw [same]
    exact ⟨rfl, fun _ occurs => processReply_carries occurs⟩

/-! ### Empty copies -/

section EmptyCopies

/-- A stale copy is empty. -/
def StaleEmpty (e : EngineData Url) (file : DataPointer) : Prop :=
  ∀ doc, unpackDocument file = .ok doc → doc.ts.before e.generationTime = true → doc.data = []

/-- **The condition on a step**: a stale copy of the key that is read is empty. -/
def CachedEmpty (e : EngineData Url) (key : Str) (pool : EnginePool Url) : EngineAction Url → Prop
  | .thread i => ∀ next file, pool.threads i = .op (.readData key) next →
      pool.shared.pageCache key = some file → e.StaleEmpty file
  | _ => True

/-- The protocol of a thread that reads no stale content under the key. -/
def handsEmpty (e : EngineData Url) (key : Str) : Typestate (@EngineAnswer Url) Unit :=
  .stateless
    (fun
      | .insertInflight other doc => other = key → doc.data = []
      | .eraseInflight _ => False
      | .feed url doc => e.swarm.toString url = key → ∀ copy ∈ doc, copy.data = []
      | _ => True)
    (fun
      | .readData other, answer => other = key → ∀ file, answer = some file → e.StaleEmpty file
      | _, _ => True)

theorem handsEmpty_neutral {content : Str} : Neutral (e.handsEmpty key) content () where
  time := ⟨trivial, fun _ => rfl⟩
  write _ _ _ := ⟨trivial, fun _ => rfl⟩
  wait _ := ⟨trivial, fun _ => rfl⟩
  processing _ := ⟨trivial, fun _ => rfl⟩
  process _ _ _ := ⟨trivial, fun _ => rfl⟩

theorem processReply_handsEmpty :
    Follows (e.handsEmpty key) (· = ()) () (e.processReply reply data) := by
  refine handsEmpty_neutral.processReply fun href _ =>
    requestLink_follows handsEmpty_neutral (fun _ _ => rfl) trivial
      (fun _ _ copied => nomatch copied)
      fun file doc expected unpacked stale => ?_
  have empty : e.swarm.toString (e.requestUrl reply href) = key → doc.data = [] := fun own =>
    expected own file rfl doc unpacked stale
  refine ⟨empty, fun own copy same => ?_⟩
  cases same
  exact empty own

/-- **What a run that reads no stale content under the key keeps**: its entry is empty, and so is
the copy each request for it was made for. -/
structure EmptyCopies (e : EngineData Url) (key : Str) (pool : EnginePool Url) : Prop where
  keeps : pool.Keeps (e.handsEmpty key) fun _ => ()
  entry : ∀ doc, pool.shared.inflight[key]? = some doc → doc.data = []
  requested : ∀ request ∈ pool.shared.outstanding, e.swarm.toString request.url = key →
    ∀ copy ∈ request.doc, copy.data = []

namespace EmptyCopies

variable {pool pool' : EnginePool Url}

theorem initial (e : EngineData Url) (key : Str) (pageCache : Str → Option DataPointer) :
    EmptyCopies e key (e.initial pageCache) where
  keeps _ := trivial
  entry doc found := by simp [EngineData.initial] at found
  requested _ member := nomatch member

theorem complete {n : ℕ} {request : Request Url} {error : Bool} {c : EngineProgram Url Unit}
    (copies : EmptyCopies e key pool) (follows : Follows (e.handsEmpty key) (fun _ => True) () c) :
    EmptyCopies e key
      (Pool.spawn { pool with shared := e.completedState n request error pool.shared } c) where
  keeps := Pool.Keeps.spawn_unit copies.keeps follows
  entry doc found := by
    by_cases same : e.swarm.toString request.url = key
    · simp [Pool.spawn, completedState, same] at found
    · refine copies.entry doc ?_
      simpa [Pool.spawn, completedState, same, Std.TreeMap.getElem?_erase] using found
  requested other member := copies.requested other (List.mem_of_mem_eraseIdx member)

/-- An insertion puts an empty document under the key, or nothing. -/
theorem insert_entry {other : Str} {doc : Document} (copies : EmptyCopies e key pool)
    (may : other = key → doc.data = []) {found : Document}
    (stored : (pool.shared.inflight.insertIfNew other doc)[key]? = some found) :
    found.data = [] := by
  by_cases new : other = key ∧ key ∉ pool.shared.inflight
  · obtain ⟨rfl, absent⟩ := new
    rw [insertIfNew_absent absent] at stored
    cases stored
    exact may rfl
  · rw [insertIfNew_unmoved fun same => by by_contra missing; exact new ⟨same, missing⟩] at stored
    exact copies.entry found stored

theorem thread {i : ℕ} {o : EngineOp Url} {next : EngineAnswer o → EngineProgram Url Unit}
    {answer : EngineAnswer o} {shared' : EngineState Url} (copies : EmptyCopies e key pool)
    (thread : pool.threads i = .op o next)
    (performed : o.perform pool.shared = some (answer, shared'))
    (empty : e.CachedEmpty key pool (.thread i)) :
    EmptyCopies e key
      { pool with shared := shared', threads := Function.update pool.threads i (next answer) } := by
  have may := copies.keeps.may thread
  have expected : (e.handsEmpty key).expects () o answer := by
    cases o with
    | readData other =>
      cases performed
      rintro rfl file found
      exact empty next file thread found
    | _ => trivial
  have keeps := copies.keeps.step_unit thread expected shared'
  cases o with
  | insertInflight other doc =>
    cases performed
    exact ⟨keeps, fun found stored => copies.insert_entry may stored, copies.requested⟩
  | eraseInflight other => exact may.elim
  | wait result =>
    obtain rfl := perform_wait performed
    exact ⟨keeps, copies.entry, copies.requested⟩
  | feed url doc =>
    cases performed
    refine ⟨keeps, copies.entry, fun request member own => ?_⟩
    rcases List.mem_append.mp member with old | new
    · exact copies.requested request old own
    · cases List.mem_singleton.mp new
      exact may own
  | currentTime => cases performed; exact ⟨keeps, copies.entry, copies.requested⟩
  | writeDocument doc => cases performed; exact ⟨keeps, copies.entry, copies.requested⟩
  | readData other => cases performed; exact ⟨keeps, copies.entry, copies.requested⟩
  | processing reply data => cases performed; exact ⟨keeps, copies.entry, copies.requested⟩
  | process functor reply data type =>
    cases performed
    exact ⟨keeps, copies.entry, copies.requested⟩

theorem afterErase_handsEmpty (reply : Response Url) (data : Str) (error : Bool)
    (oldDoc : Document) :
    Follows (e.handsEmpty key) (fun _ => True) () (e.afterErase reply data error oldDoc) := by
  unfold afterErase
  split
  · trivial
  · split
    · exact processReply_handsEmpty.mono fun _ _ => trivial
    · exact processReply_handsEmpty.mono fun _ _ => trivial

theorem step {action : EngineAction Url} (copies : EmptyCopies e key pool)
    (empty : e.CachedEmpty key pool action) (stepped : e.step pool action = some pool') :
    EmptyCopies e key pool' := by
  cases action with
  | download url =>
    cases stepped
    refine ⟨copies.keeps, copies.entry, fun request member own => ?_⟩
    rcases List.mem_append.mp member with old | new
    · exact copies.requested request old own
    · cases List.mem_singleton.mp new
      exact fun _ copied => nomatch copied
  | complete n url code headers data error =>
    obtain ⟨request, _, rfl⟩ := e.step_complete stepped
    exact copies.complete (afterErase_handsEmpty _ _ _ _)
  | thread i =>
    obtain ⟨o, next, answer, shared', thread, performed, rfl⟩ := e.step_thread stepped
    exact copies.thread thread performed empty
  | takeEffect n =>
    obtain ⟨doc, _, rfl⟩ := e.step_takeEffect stepped
    exact ⟨copies.keeps, copies.entry, copies.requested⟩
  | tick now =>
    obtain ⟨_, rfl⟩ := e.step_tick stepped
    exact ⟨copies.keeps, copies.entry, copies.requested⟩

theorem of_run {pageCache : Str → Option DataPointer} {actions : List (EngineAction Url)}
    (run : e.Runs (e.CachedEmpty key) pageCache actions pool) : EmptyCopies e key pool :=
  run.invariant (EmptyCopies e key) (initial e key pageCache)
    fun _ _ _ copies empty stepped => copies.step empty stepped

end EmptyCopies

end EmptyCopies

/-! ### When a `304` is processed with the cached content -/

/-- **A `304` is processed with the cached content in every run where that content is empty**; where
no request of `engine::download` erases the URL's entry, in no other case. -/
theorem not_modified_content (e : EngineData Url) (key : Str)
    (pageCache : Str → Option DataPointer) (actions : List (EngineAction Url))
    (pool : EnginePool Url) :
    (e.Runs (e.CachedEmpty key) pageCache actions pool → e.Revalidates key pool) ∧
    (e.Runs (e.Separate key) pageCache actions pool →
      ∀ doc n reply pool', e.AnsweredNotModified key doc n reply pool pool' →
        (e.ProcessedAs pool pool' reply doc.data ↔ doc.data = [])) := by
  have entry_empty : (∀ found, pool.shared.inflight[key]? = some found → found.data = []) →
      (pool.shared.inflight[key]?.getD (Document.new pool.shared.now)).data = [] := fun entry => by
    cases found : pool.shared.inflight[key]? with
    | none => rfl
    | some stored => exact entry stored found
  constructor
  · intro run doc n reply pool' answered
    have copies := EmptyCopies.of_run run
    obtain ⟨origin, found⟩ := answered.request
    rw [answered.processedAs_iff, entry_empty copies.entry]
    exact (copies.requested _ (List.mem_of_getElem? found) answered.own doc rfl).symm
  · intro run doc n reply pool' answered
    obtain ⟨phases, exclusive⟩ := Exclusive.of_run run
    rw [answered.processedAs_iff, entry_empty exclusive.empty_data]
    exact eq_comm

/-! ### One stale page -/

namespace StalePage

def linked : Str := "http://b/".toList

/-- The page cache holds a stale copy of the linked page. -/
def pageCache (content : Str) : Str → Option DataPointer :=
  Function.update (fun _ => none) linked (some (packDocument ⟨⟨0, 0⟩, linked, content⟩))

/-- The page that links to it is downloaded, and the link followed up to the conditional request. -/
def actions : List (EngineAction Str) :=
  [.download "http://a/".toList, .complete 0 "http://a/".toList 200 [] linked false] ++
    List.replicate 8 (.thread 0)

/-- The copy in the page cache is empty. -/
def cacheEmpty (pool : EnginePool Url) : Bool :=
  match (pool.shared.pageCache linked).map unpackDocument with
  | some (.ok doc) => doc.data.isEmpty
  | _ => true

theorem cachedEmpty_of_eval {pool : EnginePool Url} {action : EngineAction Url}
    (holds : cacheEmpty pool = true) : e.CachedEmpty linked pool action := by
  cases action with
  | thread i =>
    intro next file _ stored doc unpacked _
    simpa [cacheEmpty, stored, unpacked] using holds
  | _ => trivial

theorem runs (content : Str) :
    (exec PlainUrl.crawler.step PlainUrl.crawler.separate
      (PlainUrl.crawler.initial (pageCache content)) actions).isSome = true := rfl

theorem runs_empty :
    (exec PlainUrl.crawler.step (fun pool _ => cacheEmpty pool)
      (PlainUrl.crawler.initial (pageCache [])) actions).isSome = true := rfl

/-- The conditional request is outstanding. -/
def requested (content : Str) : EnginePool Str := endState (runs content)

def notModifiedReply : Response Str := ⟨linked, linked, notModified, []⟩

/-- It was answered with `304`. -/
def answered (content : Str) : EnginePool Str :=
  (PlainUrl.crawler.step (requested content) (.complete 0 linked notModified [] [] false)).get rfl

theorem answeredNotModified (content : Str) :
    PlainUrl.crawler.AnsweredNotModified linked ⟨⟨0, 0⟩, linked, content⟩ 0 notModifiedReply
      (requested content) (answered content) where
  request := ⟨.link, rfl⟩
  own := rfl
  code := rfl
  stepped := ⟨[], (Option.some_get _).symm⟩

/-- The entry is the empty document of the first insertion, whatever the copy holds. -/
theorem entry (content : Str) :
    (requested content).shared.inflight[linked]? = some (Document.new ⟨1, 0⟩) := rfl

end StalePage

theorem not_modified_content_stalePage :
    PlainUrl.crawler.Revalidates StalePage.linked (endState StalePage.runs_empty) ∧
      (PlainUrl.crawler.ProcessedAs (StalePage.requested ['x']) (StalePage.answered ['x'])
        StalePage.notModifiedReply ['x'] ↔ ['x'] = []) :=
  ⟨(not_modified_content _ _ _ _ _).1
      (Run.of_endState (fun _ _ => StalePage.cachedEmpty_of_eval) StalePage.runs_empty),
    (not_modified_content _ _ _ _ _).2
      (Run.of_endState (fun _ _ => separate_of_eval) (StalePage.runs ['x'])) _ _ _ _
      (StalePage.answeredNotModified ['x'])⟩

/-- A stale copy with content `x`, answered with `304`, is processed as an empty page. -/
theorem not_modified_loses_content :
    ¬ ∀ (e : EngineData Str) (key : Str) (pageCache : Str → Option DataPointer)
      (actions : List (EngineAction Str)) (pool : EnginePool Str),
      e.Runs AnyStep pageCache actions pool → e.Revalidates key pool := by
  intro revalidates
  have run : PlainUrl.crawler.Runs AnyStep (StalePage.pageCache ['x']) StalePage.actions
      (StalePage.requested ['x']) := Run.of_endState (fun _ _ _ => trivial) (StalePage.runs ['x'])
  have answered := StalePage.answeredNotModified ['x']
  have processed := revalidates _ _ _ _ _ run _ _ _ _ answered
  rw [answered.processedAs_iff, StalePage.entry] at processed
  cases processed

end EngineData

end Wookie
