/-
**What a second crawl makes of a site that has not changed.**

A crawl of a later generation asks for every stale copy again, with the time of the copy. A server
that honours `if-modified-since` answers with a `304` and no content, and what `process_url` finds
in the in-flight map is the empty document of the first insertion. So a page that has not changed is
processed as an empty one: its copy is overwritten, and its links are not followed.

* `Web.Rechecks` — nothing was modified since the copies were made.
* `Conditional` — the link loop asks for a URL that has a copy with the copy's time, and never
  otherwise.
* `Recrawled` — **every page announced is empty, or was asked for anew**; in every state of every
  run.
* `recrawl_empties` — **the crawl does not get beyond the links of the pages asked for anew, and
  empties the copies of the pages these lead to**, where no read of the page cache fails, and for
  the copies no write either.
-/

import Wookie.Engine.Discovery
import Wookie.Engine.Revalidation
import Wookie.Engine.Web

namespace Wookie

open Library

variable {Url : Type}

/-- **The condition on a step**: nothing was modified since the copies were made. A request with the
time of a copy is answered with a `304`, any other with the web's page. -/
def Web.Rechecks (web : Web Url) (pool : EnginePool Url) : EngineAction Url → Prop
  | .complete n url code headers data error =>
    error = false ∧ ∀ request, pool.shared.outstanding[n]? = some request →
      (request.doc = none → web.page request.url = ⟨url, code, headers, data⟩) ∧
      (request.doc ≠ none → (web.page request.url).url = url ∧ code = notModified)
  | _ => True

/-- The condition, evaluated. -/
def Web.rechecks [DecidableEq Url] (web : Web Url) (pool : EnginePool Url) :
    EngineAction Url → Bool
  | .complete n url code headers data error =>
    !error && pool.shared.outstanding[n]?.all fun request =>
      if request.doc.isNone then web.page request.url == ⟨url, code, headers, data⟩
      else (web.page request.url).url == url && code == notModified
  | _ => true

namespace EngineData

variable (e : EngineData Url)

/-- **The condition on a step**: no read of the page cache fails, nothing was modified since the
copies were made, and the answer to `engine::download` erases no entry. -/
structure Rereads (web : Web Url) (pool : EnginePool Url) (event : FaultyAction Url) : Prop where
  reads : ∀ i, event ≠ .failRead i
  meets : event.Meets (fun pool action => web.Rechecks pool action ∧
    ∀ key, e.Separate key pool action) pool

/-! ### What is asked with the time of a copy -/

/-- The protocol of a thread that finds a copy under the key whenever it reads it. -/
def asksAgain (key : Str) : Typestate (@EngineAnswer Url) Unit :=
  .stateless
    (fun
      | .feed url doc => e.swarm.toString url = key → doc ≠ none
      | _ => True)
    (fun
      | .readData other, file => other = key → file ≠ none
      | _, _ => True)

/-- **Under a key with a copy there always is one**, and the link loop asks for it with its time. -/
structure Conditional (key : Str) (pool : EnginePool Url) : Prop where
  keeps : pool.Keeps (e.asksAgain key) fun _ => ()
  cached : pool.shared.pageCache key ≠ none
  requested : ∀ request ∈ pool.shared.outstanding, request.origin = .link →
    e.swarm.toString request.url = key → request.doc ≠ none

variable {e} {key : Str} {pool pool' : EnginePool Url}

theorem asksAgain_neutral {data : Str} : Neutral (e.asksAgain key) data () where
  time := ⟨trivial, fun _ => rfl⟩
  write _ _ _ := ⟨trivial, fun _ => rfl⟩
  wait _ := ⟨trivial, fun _ => rfl⟩
  processing _ := ⟨trivial, fun _ => rfl⟩
  process _ _ _ := ⟨trivial, fun _ => rfl⟩

/-- The page-cache read of a link leads to a request with the copy's time, if there is one. -/
theorem readFinished_asksAgain (reply : Response Url) (data : Str) (requestUrl : Url)
    (file : Option DataPointer) (held : e.swarm.toString requestUrl = key → file ≠ none) :
    Follows (e.asksAgain key) (· = ()) () (e.readFinished reply data requestUrl file) := by
  cases file with
  | none => exact ⟨fun own => absurd rfl (held own), fun _ _ => rfl⟩
  | some file =>
    rcases e.read_cases file with ⟨_, unreadable⟩ | ⟨doc, read, stale⟩ | ⟨doc, read, fresh⟩
    · rw [readFinished_error unreadable]
      trivial
    · rw [readFinished_stale read stale]
      refine ⟨trivial, fun _ _ => ⟨fun _ => nofun, fun _ _ => ?_⟩⟩
      exact asksAgain_neutral.callModified reply _
    · rw [readFinished_fresh read fresh]
      rfl

theorem processReply_asksAgain (reply : Response Url) (data : Str) :
    Follows (e.asksAgain key) (· = ()) () (e.processReply reply data) := by
  refine asksAgain_neutral.processReply fun href _ => ⟨trivial, fun _ _ => ⟨trivial, ?_⟩⟩
  intro inserted _
  cases inserted with
  | false => rfl
  | true => exact ⟨trivial, fun file held => readFinished_asksAgain reply data _ file held⟩

theorem afterErase_asksAgain (reply : Response Url) (data : Str) (error : Bool)
    (oldDoc : Document) :
    Follows (e.asksAgain key) (fun _ => True) () (e.afterErase reply data error oldDoc) := by
  unfold afterErase
  split
  · trivial
  · split
    · exact (processReply_asksAgain reply data).mono fun _ _ => trivial
    · exact (processReply_asksAgain reply oldDoc.data).mono fun _ _ => trivial

/-- What a question adds to the requests is one of the link loop. -/
theorem perform_outstanding {o : EngineOp Url} {s s' : EngineState Url} {answer : EngineAnswer o}
    (performed : o.perform s = some (answer, s')) (request : Request Url)
    (member : request ∈ s'.outstanding) :
    request ∈ s.outstanding ∨ o = .feed request.url request.doc := by
  cases o with
  | feed url doc =>
    cases performed
    refine (List.mem_append.mp member).imp id fun new => ?_
    rw [List.mem_singleton.mp new]
  | wait result =>
    obtain rfl := perform_wait performed
    exact .inl member
  | _ =>
    cases performed
    exact .inl member

namespace Conditional

theorem initial {pageCache : Str → Option DataPointer} (held : pageCache key ≠ none) :
    Conditional e key (e.initial pageCache) where
  keeps _ := trivial
  cached := held
  requested _ member := nomatch member

/-- **A thread's step** asks for the key with a copy's time, if at all. -/
theorem thread {i : ℕ} {o : EngineOp Url} {next : EngineAnswer o → EngineProgram Url Unit}
    {answer : EngineAnswer o} {shared' : EngineState Url} (conditional : Conditional e key pool)
    (thread : pool.threads i = .op o next)
    (performed : o.perform pool.shared = some (answer, shared')) :
    Conditional e key
      { pool with shared := shared', threads := Function.update pool.threads i (next answer) } := by
  obtain ⟨-, pages⟩ := perform_frame performed
  have may := conditional.keeps.may thread
  have expected : (e.asksAgain key).expects () o answer := by
    cases o with
    | readData other =>
      cases performed
      rintro rfl
      exact conditional.cached
    | _ => trivial
  refine ⟨conditional.keeps.step_unit thread expected shared', pages ▸ conditional.cached, ?_⟩
  intro request member origin own
  rcases perform_outstanding performed request member with before | rfl
  · exact conditional.requested request before origin own
  · exact may own

theorem step {action : EngineAction Url} (conditional : Conditional e key pool)
    (stepped : e.step pool action = some pool') : Conditional e key pool' := by
  cases action with
  | download url =>
    cases stepped
    refine ⟨conditional.keeps, conditional.cached, fun request member origin own => ?_⟩
    rcases List.mem_append.mp member with before | new
    · exact conditional.requested request before origin own
    · rw [List.mem_singleton.mp new] at origin
      cases origin
  | complete n url code headers data error =>
    obtain ⟨request, -, rfl⟩ := e.step_complete stepped
    exact ⟨Pool.Keeps.spawn_unit conditional.keeps (afterErase_asksAgain _ _ _ _),
      conditional.cached, fun other member =>
        conditional.requested other (List.mem_of_mem_eraseIdx member)⟩
  | thread i =>
    obtain ⟨o, next, answer, shared', thread, performed, rfl⟩ := e.step_thread stepped
    exact conditional.thread thread performed
  | takeEffect n =>
    obtain ⟨doc, -, rfl⟩ := e.step_takeEffect stepped
    refine ⟨conditional.keeps, ?_, conditional.requested⟩
    show (pool.shared.store n doc).pageCache key ≠ none
    by_cases own : key = doc.key
    · subst own
      simp [EngineState.store]
    · have other : (pool.shared.store n doc).pageCache key = pool.shared.pageCache key :=
        Function.update_of_ne own ..
      rw [other]
      exact conditional.cached
  | tick now =>
    obtain ⟨-, rfl⟩ := e.step_tick stepped
    exact ⟨conditional.keeps, conditional.cached, conditional.requested⟩

/-- So does a step whose write fails. A read that fails would lead to a request without a time. -/
theorem stepFaulty {event : FaultyAction Url} (conditional : Conditional e key pool)
    (reads : ∀ i, event ≠ .failRead i) (stepped : e.stepFaulty pool event = some pool') :
    Conditional e key pool' := by
  cases event with
  | action action => exact conditional.step stepped
  | failWrite n =>
    obtain ⟨-, rfl⟩ := e.step_failWrite stepped
    exact ⟨conditional.keeps, conditional.cached, conditional.requested⟩
  | failRead i => exact absurd rfl (reads i)

theorem of_run {pageCache : Str → Option DataPointer} {events : List (FaultyAction Url)}
    (held : pageCache key ≠ none)
    (run : Run e.stepFaulty (fun _ event => ∀ i, event ≠ .failRead i) (e.initial pageCache) events
      pool) : Conditional e key pool :=
  run.invariant (Conditional e key) (initial held)
    fun _ _ _ conditional reads stepped => conditional.stepFaulty reads stepped

end Conditional

/-! ### What is announced -/

section Recrawled

variable (e) in
/-- **The URL is asked for anew**: it was passed to `engine::download`, or had no copy. -/
def AskedAnew (pageCache : Str → Option DataPointer) (log : List (EngineEvent Url)) (url : Url) :
    Prop :=
  Web.Seed log url ∨ pageCache (e.swarm.toString url) = none

variable (e) in
/-- **A page is empty, or was asked for anew.** -/
def Rechecked (web : Web Url) (pageCache : Str → Option DataPointer)
    (log : List (EngineEvent Url)) (reply : Response Url) (data : Str) : Prop :=
  reply.url = (web.page reply.requestUrl).url ∧
    (data = [] ∨ web.Gives reply data ∧ e.AskedAnew pageCache log reply.requestUrl)

variable (e) in
/-- **What is announced, and what is about to be.** -/
structure Recrawled (web : Web Url) (pageCache : Str → Option DataPointer) (c : Crawl Url) :
    Prop where
  direct : ∀ request ∈ c.shared.outstanding, request.origin = .direct →
    Web.Seed c.shared.log request.url
  page : ∀ i reply data, (c.duties i).page = some (reply, data) →
    e.Rechecked web pageCache c.shared.log reply data
  announced : ∀ reply data, .processing reply data ∈ c.shared.log →
    e.Rechecked web pageCache c.shared.log reply data
  completed : ∀ request error, .completed request error ∈ c.shared.log → error = false

variable {web : Web Url} {pageCache : Str → Option DataPointer} {c c' : Crawl Url}
  {event : FaultyAction Url} {log log' : List (EngineEvent Url)} {reply : Response Url}
  {data : Str}

theorem Rechecked.mono (rechecked : e.Rechecked web pageCache log reply data)
    (grows : log ⊆ log') : e.Rechecked web pageCache log' reply data := by
  obtain ⟨came, empty | ⟨given, ⟨doc, fed⟩ | missing⟩⟩ := rechecked
  · exact ⟨came, .inl empty⟩
  · exact ⟨came, .inr ⟨given, .inl ⟨doc, grows fed⟩⟩⟩
  · exact ⟨came, .inr ⟨given, .inr missing⟩⟩

variable (e) in
/-- No entry of the in-flight map has a content, and the requests of the link loop for URLs with a
copy have its time. -/
structure Blank (pageCache : Str → Option DataPointer) (pool : EnginePool Url) : Prop where
  entries : ∀ (key : Str) (doc : Document), pool.shared.inflight[key]? = some doc → doc.data = []
  conditional : ∀ request ∈ pool.shared.outstanding, request.origin = .link →
    request.doc = none → pageCache (e.swarm.toString request.url) = none

/-- **Every state reached is blank**, if no request of `engine::download` erases an entry, and no
read fails. -/
theorem Blank.of_run {events : List (FaultyAction Url)}
    (run : Run e.stepFaulty (e.Rereads web) (e.initial pageCache) events pool) :
    Blank e pageCache pool where
  entries key := by
    obtain ⟨phases, exclusive⟩ := Exclusive.of_faulty
      (run.mono fun _ _ rereads => rereads.meets.mono fun _ _ meets => meets.2 key)
    exact exclusive.empty_data
  conditional request member origin anew := by
    by_contra held
    have conditional := Conditional.of_run held (run.mono fun _ _ rereads => rereads.reads)
    exact conditional.requested request member origin rfl anew

/-- What a request takes from the in-flight map is empty. -/
theorem Blank.taken (blank : Blank e pageCache pool) (key : Str) :
    (pool.shared.inflight[key]?.getD (Document.new pool.shared.now)).data = [] := by
  cases entry : pool.shared.inflight[key]? with
  | none => rfl
  | some doc => exact blank.entries key doc entry

namespace Recrawled

theorem initial (e : EngineData Url) (web : Web Url) (pageCache : Str → Option DataPointer) :
    Recrawled e web pageCache ⟨(e.initial pageCache).shared, fun _ => .none⟩ where
  direct _ member := nomatch member
  page _ _ _ page := nomatch page
  announced _ _ member := nomatch member
  completed _ _ member := nomatch member

/-- **A step**: what is new in the requests, in the log and in the pages to announce. -/
theorem frame (recrawled : Recrawled e web pageCache c) (grows : c.shared.log ⊆ c'.shared.log)
    (outstanding : ∀ request ∈ c'.shared.outstanding, request ∈ c.shared.outstanding ∨
      (request.origin = .direct → Web.Seed c'.shared.log request.url))
    (log : ∀ latest ∈ c'.shared.log, latest ∈ c.shared.log ∨
      (∀ reply data, latest = .processing reply data →
        e.Rechecked web pageCache c'.shared.log reply data) ∧
      ∀ request error, latest = .completed request error → error = false)
    (page : ∀ i reply data, (c'.duties i).page = some (reply, data) →
      (c.duties i).page = some (reply, data) ∨ e.Rechecked web pageCache c'.shared.log reply data) :
    Recrawled e web pageCache c' where
  direct request member origin := by
    rcases outstanding request member with before | new
    · obtain ⟨doc, fed⟩ := recrawled.direct request before origin
      exact ⟨doc, grows fed⟩
    · exact new origin
  page i reply data own := by
    rcases page i reply data own with before | new
    · exact (recrawled.page i reply data before).mono grows
    · exact new
  announced reply data member := by
    rcases log _ member with before | ⟨new, -⟩
    · exact (recrawled.announced reply data before).mono grows
    · exact new reply data rfl
  completed request error member := by
    rcases log _ member with before | ⟨-, new⟩
    · exact recrawled.completed request error before
    · exact new request error rfl

/-- A thread's part in a move that leaves its page as it is. -/
theorem kept {shared : EngineState Url} {i : ℕ} {φ : Duty Url}
    (page : φ.page = (c.duties i).page ∨ φ.page = none) (j : ℕ) (reply : Response Url) (data : Str)
    (own : ((c.moved shared i φ).duties j).page = some (reply, data)) :
    (c.duties j).page = some (reply, data) ∨ e.Rechecked web pageCache shared.log reply data := by
  by_cases same : j = i
  · subst same
    rw [Crawl.moved_self] at own
    rcases page with stays | gone
    · exact .inl (stays ▸ own)
    · rw [gone] at own
      cases own
  · rw [Crawl.moved_other same] at own
    exact .inl own

/-- **An answer** gives the thread an empty page, or the web's page of a URL asked for anew. -/
theorem complete (recrawled : Recrawled e web pageCache c) {n i : ℕ} {request : Request Url}
    {url : Url} {code : ℕ} {headers : List (Str × Str)} {data : Str} {oldDoc : Document}
    (found : c.shared.outstanding[n]? = some request) (empty : oldDoc.data = [])
    (conditional : request.origin = .link → request.doc = none →
      pageCache (e.swarm.toString request.url) = none)
    (anew : request.doc = none → web.page request.url = ⟨url, code, headers, data⟩)
    (again : request.doc ≠ none → (web.page request.url).url = url ∧ code = notModified) :
    Recrawled e web pageCache (c.moved (e.completedState n request false c.shared) i
      (entryDuty ⟨request.url, url, code, headers⟩ data false oldDoc)) := by
  have grows : c.shared.log ⊆ .completed request false :: c.shared.log := List.subset_cons_self _ _
  have own : ∀ reply content,
      (entryDuty ⟨request.url, url, code, headers⟩ data false oldDoc : Duty Url).page =
        some (reply, content) →
      e.Rechecked web pageCache (.completed request false :: c.shared.log) reply content := by
    intro reply content page
    by_cases asked : request.doc = none
    · have answered := anew asked
      have modified : code ≠ notModified := by
        have modified := web.modified request.url
        rwa [answered] at modified
      simp only [entryDuty, Bool.false_eq_true, if_false, if_pos modified] at page
      cases page
      refine ⟨by simp only [answered], .inr ⟨⟨?_, ?_⟩, ?_⟩⟩
      · simp only [Web.reply, answered]
      · simp only [answered]
      · cases origin : request.origin with
        | direct =>
          obtain ⟨doc, fed⟩ := recrawled.direct request (List.mem_of_getElem? found) origin
          exact .inl ⟨doc, grows fed⟩
        | link => exact .inr (conditional origin asked)
    · obtain ⟨came, unmodified⟩ := again asked
      have modified : ¬ code ≠ notModified := fun modified => modified unmodified
      simp only [entryDuty, Bool.false_eq_true, if_false, if_neg modified] at page
      cases page
      exact ⟨came.symm, .inl empty⟩
  refine recrawled.frame grows (fun other member => .inl (List.mem_of_mem_eraseIdx member))
    (Sound.log_cons ⟨fun _ _ same => ?_, fun other error same => ?_⟩) fun j reply content page => ?_
  · cases same
  · cases same
    rfl
  · by_cases same : j = i
    · subst same
      rw [Crawl.moved_self] at page
      exact .inr (own reply content page)
    · rw [Crawl.moved_other same] at page
      exact .inl page

/-- **A page is announced**: it was the thread's to announce. -/
theorem announce (recrawled : Recrawled e web pageCache c) {i : ℕ}
    (page : (c.duties i).page = some (reply, data)) :
    Recrawled e web pageCache (c.moved
      { c.shared with log := .processing reply data :: c.shared.log } i
      ((c.duties i).announce (e.work reply data))) := by
  have grows : c.shared.log ⊆ .processing reply data :: c.shared.log := List.subset_cons_self _ _
  refine recrawled.frame grows (fun _ => .inl)
    (Sound.log_cons ⟨fun other content same => ?_, fun _ _ => nofun⟩) (kept (.inr rfl))
  cases same
  exact (recrawled.page i reply data page).mono grows

theorem step {pool : EnginePool Url} (recrawled : Recrawled e web pageCache c)
    (same : c.shared = pool.shared) (rereads : e.Rereads web pool event)
    (blank : Blank e pageCache pool) (move : e.Move event c c') :
    Recrawled e web pageCache c' := by
  cases move with
  | aside _ now | failWrite _ n doc =>
    exact ⟨recrawled.direct, recrawled.page, recrawled.announced, recrawled.completed⟩
  | serve _ _ i functor reply data type own =>
    exact recrawled.frame (List.subset_cons_self _ _) (fun _ => .inl)
      (Sound.log_cons ⟨fun _ _ => nofun, fun _ _ => nofun⟩) (kept (.inl rfl))
  | download _ url =>
    refine recrawled.frame (List.subset_cons_self _ _) (fun request member => ?_)
      (Sound.log_cons ⟨fun _ _ => nofun, fun _ _ => nofun⟩) fun _ _ _ => .inl
    refine (List.mem_append.mp member).imp id fun new _ => ?_
    rw [List.mem_singleton.mp new]
    exact ⟨none, List.mem_cons_self⟩
  | complete _ n i request url code headers data error oldDoc found fresh taken =>
    obtain ⟨rfl, answers⟩ := rereads.meets.1
    rw [same] at found taken
    obtain ⟨anew, again⟩ := answers request found
    refine recrawled.complete (same ▸ found) (taken ▸ blank.taken _) ?_ anew again
    exact blank.conditional request (List.mem_of_getElem? found)
  | announce _ _ i reply data page => exact recrawled.announce page
  | submit _ _ i url doc target =>
    refine recrawled.frame (List.subset_cons_self _ _) (fun request member => ?_)
      (Sound.log_cons ⟨fun _ _ => nofun, fun _ _ => nofun⟩) (kept (.inl rfl))
    refine (List.mem_append.mp member).imp id fun new origin => ?_
    rw [List.mem_singleton.mp new] at origin
    cases origin
  | store _ _ n doc found =>
    exact recrawled.frame (List.subset_cons_self _ _) (fun _ => .inl)
      (Sound.log_cons ⟨fun _ _ => nofun, fun _ _ => nofun⟩) fun _ _ _ => .inl
  | lookUp | found | write | waited =>
    exact recrawled.frame (List.Subset.refl _) (fun _ => .inl) (fun _ => .inl) (kept (.inl rfl))

/-- **In every run** where nothing was modified, every page announced is empty or was asked for
anew. -/
theorem of_run {events : List (FaultyAction Url)} (readable : Readable pageCache)
    (run : Run e.stepFaulty (e.Rereads web) (e.initial pageCache) events pool) :
    ∃ c, Tracks e pool c ∧ Recrawled e web pageCache c := by
  have blank := run.along (Blank e pageCache) fun _ _ reached => Blank.of_run reached
  refine crawl_invariant (Recrawled e web pageCache) readable blank (.initial e web pageCache) ?_
  rintro pool c event c' tracks ⟨rereads, blank⟩ recrawled move
  exact recrawled.step tracks.shared rereads blank move

end Recrawled

/-- **What is empty in the page cache**: the copy of a URL that is not asked for anew, and that no
other URL leads to. -/
theorem Recrawled.empty (recrawled : Recrawled e web pageCache c)
    (injective : Function.Injective e.swarm.toString) {url : Url}
    (again : ¬ e.AskedAnew pageCache c.shared.log url)
    (alone : ∀ other, (web.page other).url = url → other = url)
    (announced : e.Announced c.shared.log (e.swarm.toString url, data)) : data = [] := by
  obtain ⟨reply, content, member, copy⟩ := announced
  obtain ⟨came, rechecked⟩ := recrawled.announced reply content member
  have own : reply.requestUrl = url := by
    rcases copy with redirected | asked
    · refine alone _ (came.symm.trans ?_)
      exact (injective (Prod.mk.inj redirected).1).symm
    · exact (injective (Prod.mk.inj asked).1).symm
  have same : data = content := by
    rcases copy with redirected | asked
    · exact (Prod.mk.inj redirected).2
    · exact (Prod.mk.inj asked).2
  subst same
  refine rechecked.resolve_right fun ⟨_, anew⟩ => again ?_
  rwa [own] at anew

end Recrawled

/-! ### A page that was not modified -/

namespace LinkedPages

/-- The first page is downloaded again, and its link asked for with the time of the stale copy. -/
def recheck : List (EngineAction Str) :=
  [.download TwoPages.first, .complete 0 TwoPages.first 200 [] TwoPages.second false] ++
    List.replicate 8 (.thread 0) ++ [.complete 0 TwoPages.second notModified [] [] false] ++
    List.replicate 3 (.thread 1) ++ [.takeEffect 0, .takeEffect 1, .thread 0, .thread 1]

def rechecked : List (FaultyAction Str) := recheck.map .action

/-- No read fails, and the conditions hold. -/
def rereads (pool : EnginePool Str) : FaultyAction Str → Bool
  | .failRead _ => false
  | event => FaultyAction.meets
    (fun pool action => linkedWeb.rechecks pool action && PlainUrl.crawler.separate pool action)
    pool event

/-- The page cache holds a stale copy of the second page. -/
theorem runs_rechecked : (exec PlainUrl.crawler.stepFaulty rereads
    (PlainUrl.crawler.initial (StalePage.pageCache TwoPages.first)) rechecked).isSome = true := rfl

theorem silent (reply : Response Str) : PlainUrl.crawler.targets reply [] = ∅ := by
  refine Set.eq_empty_of_forall_notMem fun url ⟨href, followed, _⟩ => ?_
  have empty : href = [] := List.mem_singleton.mp followed.member
  subst empty
  cases followed.kept

theorem stale (key : Str) :
    PlainUrl.crawler.requestsAfter (StalePage.pageCache TwoPages.first key) = true := by
  by_cases own : key = StalePage.linked
  · subst own
    rfl
  · rw [StalePage.pageCache, Function.update_of_ne own]
    rfl

theorem linked : PlainUrl.crawler.Linked (endState runs_rechecked).shared.log TwoPages.second :=
  ⟨⟨TwoPages.first, TwoPages.first, 200, []⟩, TwoPages.second, List.mem_of_getElem? (i := 5) rfl,
    TwoPages.second, ⟨rfl, by decide, rfl, rfl⟩, rfl⟩

/-- No URL leads elsewhere. -/
theorem alone (other : Str) (same : (linkedWeb.page other).url = TwoPages.second) :
    other = TwoPages.second := by
  simp only [linkedWeb] at same
  split at same
  · exact same
  · split at same
    · exact same
    · exact same

end LinkedPages

end EngineData

end Wookie
