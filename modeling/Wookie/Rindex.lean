/-
**Crawling a site and searching it: `test/rindex.cpp`.**

`rindex --url` crawls the domain of a start URL; a processor indexes the text of every page under
the page's URL, a fallback processor an empty text for every page the filters reject. `rindex
--find` searches what was indexed.

* `Rindex.engine` — the engine `main` sets up: the text filter, the three URL filters, the parser
  and the two processors.
* `Rindex.processText`, `Rindex.Store.process` — what a call of a processor does to the store.
* `Rindex.engine_ignores` — no functor looks at the URL that was asked for.
* `Rindex.links_exact` — the links that are followed are the anchors of a page, outside of scripts
  and styles, that lead to the start URL's host.
* `Rindex.texts_exact` — after a crawl that came to rest, the texts stored are those of the pages
  that links lead to.
* `Rindex.finds_exactly` — **after a crawl that came to rest, a search finds exactly the pages that
  links lead to, that the filters accept, and whose text has what the search looks for.**
-/

import Wookie.Engine.Discovery
import Wookie.Engine.Served
import Wookie.Engine.Web
import Wookie.Parser
import Wookie.Search.Reindexed

namespace Wookie

open Library

variable {Url : Type}

/-! ### The functors of `lib/engine.cpp` -/

/-- `create_text_filter`: the header decides, or else what libmagic says of the page. -/
def createTextFilter (contentType : List (Str × Str) → Option Str) (isText : Str → Bool) :
    Response Url → Str → Bool := fun reply data =>
  match contentType reply.headers with
  | some contentType => contentType.take 5 == "text/".toList
  | none => isText data

/-- `create_href_parser`. A page that does not parse throws in the source. -/
def createHrefParser (env : ParserEnv) : Response Url → Str → List Str := fun _ data =>
  ((Parser.feedText env data).map Parser.urls).getD []

/-! ### `rindex_processor` -/

/-- What `main` is given, and what is outside of the repository. -/
structure Rindex (Url : Type) where
  swarm : SwarmUrl Url
  env : ParserEnv
  /-- `reply.headers().content_type()`. -/
  contentType : List (Str × Str) → Option Str
  /-- `magic::is_text`. -/
  isText : Str → Bool
  /-- The value of `--url`. -/
  url : Str
  generationTime : DnetTime

namespace Rindex

variable (r : Rindex Url)

/-- `rindex_processor::create`, both errors being `none`: the base is the host of the start URL. -/
def create : Option Str :=
  let baseUrl := r.swarm.ofString r.url
  if !r.swarm.isValid baseUrl then none
  else
    let base := r.swarm.host baseUrl
    if base.isEmpty then none else some base

/-- The text a page is indexed with. The fallback processor feeds its parser nothing. -/
def pageText (fallback : Bool) (data : Str) : Str :=
  if fallback then Parser.text " ".toList ⟨[], []⟩
  else ((Parser.feedText r.env data).map (Parser.text " ".toList)).getD []

/-- The fallback processor indexes no text. -/
theorem pageText_fallback (data : Str) : r.pageText true data = [] := rfl

/-- `rindex_processor::process_text`, up to the call of `process`. -/
def processText (base : Str) (fallback : Bool) (reply : Response Url) (data : Str) (ts : DnetTime) :
    Update :=
  ⟨r.swarm.toString reply.url, r.pageText fallback data, ts, base ++ ".collection".toList⟩

/-- The indexes, and the documents of the namespace `text`. -/
structure Store where
  indexes : Indexes
  text : Str → Option DataPointer

/-- `rindex_processor::process`. -/
def Store.process (loc : Locale) (ell : Elliptics) (store : Store) (update : Update) : Store where
  indexes := update.apply loc ell store.indexes
  text := Function.update store.text update.key
    (some (packDocument ⟨update.ts, update.key, update.content⟩))

/-- The place of the processor among the functors, and that of the fallback processor. -/
def processor : ProcessFunctor := 0

def fallbackProcessor : ProcessFunctor := 1

/-- The engine that `main` sets up; `none` is an exception of one of the `create`s. -/
def engine : Option (EngineData Url) := do
  let domain ← createDomainFilter r.swarm r.url
  let _ ← r.create
  return {
    swarm := r.swarm
    parsers := [createHrefParser r.env]
    filters := [createTextFilter r.contentType r.isText]
    urlFilters := [domain, createWordsFilter r.swarm ["/blog".toList],
      createPortFilter r.swarm [80, 8080]]
    processors := [processor]
    fallbackProcessors := [fallbackProcessor]
    generationTime := r.generationTime }

variable {r} {e : EngineData Url}

/-- **No functor of the engine looks at the URL that was asked for.** -/
theorem engine_ignores (made : r.engine = some e) : e.IgnoresRequest := by
  obtain ⟨domain, created, rest⟩ := Option.bind_eq_some_iff.mp made
  obtain ⟨base, -, same⟩ := Option.bind_eq_some_iff.mp rest
  cases same
  refine ⟨fun parser member reply asked data => ?_, fun filter member reply asked data => ?_,
    fun filter member reply asked url => ?_⟩
  · rw [List.mem_singleton.mp member]
    rfl
  · rw [List.mem_singleton.mp member]
    rfl
  · rcases List.mem_cons.mp member with rfl | others
    · exact EngineData.createDomainFilter_ignores created reply asked url
    · rcases List.mem_cons.mp others with rfl | last
      · rfl
      · rw [List.mem_singleton.mp last]
        rfl

/-- The functors a page is for. -/
theorem engine_callees (made : r.engine = some e) {reply : Response Url} {data : Str}
    (modified : reply.code ≠ notModified) : e.callees reply data =
      if e.acceptedByFilters reply data then [processor] else [fallbackProcessor] := by
  obtain ⟨domain, created, rest⟩ := Option.bind_eq_some_iff.mp made
  obtain ⟨base, -, same⟩ := Option.bind_eq_some_iff.mp rest
  cases same
  simp only [EngineData.callees, if_pos modified]

theorem engine_swarm (made : r.engine = some e) : e.swarm = r.swarm := by
  obtain ⟨domain, created, rest⟩ := Option.bind_eq_some_iff.mp made
  obtain ⟨base, -, same⟩ := Option.bind_eq_some_iff.mp rest
  cases same
  rfl

/-! ### The links of a page -/

/-- **Words of two characters or more are forbidden anywhere**: the exception for the last character
is for shorter ones. -/
theorem wordsFilter_iff {swarm : SwarmUrl Url} {words : List Str}
    (long : ∀ word ∈ words, 2 ≤ word.length) {reply : Response Url} {url : Url} :
    createWordsFilter swarm words reply url = true ↔
      ∀ word ∈ words, ¬ word <:+: swarm.toString url := by
  rw [createWordsFilter_iff]
  refine forall₂_congr fun word member => or_iff_left fun only => ?_
  have short := only.short
  have most := long word member
  omega

/-- **A link of the page that `rindex` follows**: the converted `href` of an anchor that is inside
of no script and no style, and where it leads. -/
structure Anchor (r : Rindex Url) (page : Page Url) (link : Str) (target : Url) : Prop where
  href : ∃ href ∈ Parser.pageHrefs r.env page.data, Parser.convert r.env href = some link
  resolved : r.swarm.resolved page.url (r.swarm.ofString link) = target
  valid : r.swarm.isValid (r.swarm.ofString link) = true ∧ r.swarm.isValid target = true
  scheme : r.swarm.scheme target = "https".toList ∨ r.swarm.scheme target = "http".toList
  other : r.swarm.toString target ≠ r.swarm.toString page.url
  host : r.swarm.host target = r.swarm.host (r.swarm.ofString r.url)
  /-- The words filter and the port filter look at the link as it stands in the page. -/
  word : ¬ "/blog".toList <:+: r.swarm.toString (r.swarm.ofString link)
  port : ∀ port, r.swarm.port (r.swarm.ofString link) = some port → port = 80 ∨ port = 8080

/-- **A link passes the filters of `main`.** -/
theorem urlOk_iff (made : r.engine = some e) {reply : Response Url} {link : Str} :
    e.urlOk reply link = true ↔
      r.swarm.host (r.swarm.resolved reply.url (r.swarm.ofString link)) =
        r.swarm.host (r.swarm.ofString r.url) ∧
      ¬ "/blog".toList <:+: r.swarm.toString (r.swarm.ofString link) ∧
      ∀ port, r.swarm.port (r.swarm.ofString link) = some port → port = 80 ∨ port = 8080 := by
  obtain ⟨domain, created, rest⟩ := Option.bind_eq_some_iff.mp made
  obtain ⟨base, -, same⟩ := Option.bind_eq_some_iff.mp rest
  cases same
  simp only [createDomainFilter] at created
  split at created
  · cases created
  · cases created
    simp only [EngineData.urlOk, List.all_cons, List.all_nil, Bool.and_true, Bool.and_eq_true]
    refine and_congr ?_ (and_congr ?_ ?_)
    · rw [beq_iff_eq]
      exact eq_comm
    · rw [wordsFilter_iff (by decide)]
      simp
    · rw [createPortFilter]
      cases r.swarm.port (r.swarm.ofString link) with
      | none => simp
      | some port => simp

/-- The start URL has a host. -/
theorem host_ne_nil (made : r.engine = some e) : r.swarm.host (r.swarm.ofString r.url) ≠ [] := by
  obtain ⟨domain, created, -⟩ := Option.bind_eq_some_iff.mp made
  intro empty
  rw [createDomainFilter, empty] at created
  cases created

/-- What the elements of a list are converted to, if they all can be. -/
theorem mem_mapM {f : Str → Option Str} {texts converted : List Str}
    (mapped : texts.mapM f = some converted) {out : Str} :
    out ∈ converted ↔ ∃ text ∈ texts, f text = some out := by
  induction texts generalizing converted with
  | nil =>
    cases mapped
    simp
  | cons text rest ih =>
    rw [List.mapM_cons] at mapped
    obtain ⟨first, own, mapped⟩ := Option.bind_eq_some_iff.mp mapped
    obtain ⟨more, later, same⟩ := Option.bind_eq_some_iff.mp mapped
    cases same
    rw [List.mem_cons, ih later]
    simp [own, eq_comm]

/-- A link is followed if the text filter accepts its page, and it passes the checks and the filters
of `main`. -/
theorem followed_iff (made : r.engine = some e) {reply : Response Url} {data link : Str}
    {parser : Parser} (fed : Parser.feedText r.env data = some parser) :
    e.Followed reply data link ↔
      createTextFilter r.contentType r.isText reply data = true ∧ link ∈ parser.urls ∧
        e.kept reply link = true := by
  obtain ⟨domain, created, rest⟩ := Option.bind_eq_some_iff.mp made
  obtain ⟨base, -, same⟩ := Option.bind_eq_some_iff.mp rest
  cases same
  have found : createHrefParser r.env reply data = parser.urls := by
    rw [createHrefParser, fed]
    rfl
  constructor
  · intro followed
    obtain ⟨_, one, member⟩ := EngineData.mem_links.mp followed.member
    cases List.mem_singleton.mp one
    refine ⟨(Bool.and_eq_true_iff.mp followed.accepted).1, found ▸ member, ?_⟩
    rw [EngineData.kept, followed.kept, followed.ok]
    rfl
  · rintro ⟨accepted, member, kept⟩
    obtain ⟨kept, ok⟩ := Bool.and_eq_true_iff.mp kept
    refine ⟨Bool.and_eq_true_iff.mpr ⟨accepted, rfl⟩,
      EngineData.mem_links.mpr ⟨_, List.mem_singleton.mpr rfl, found.symm ▸ member⟩, ?_, ok⟩
    simpa using kept

/-- **`rindex` follows exactly the anchors**, where the text filter accepts the page. A page that
does not parse throws in the source. -/
theorem links_exact (r : Rindex Url) (e : EngineData Url) (made : r.engine = some e) (web : Web Url)
    (url : Url) (parses : (Parser.feedText r.env (web.page url).data).isSome = true)
    (target : Url) :
    web.LinksTo e url target ↔
      createTextFilter r.contentType r.isText (web.reply url) (web.page url).data = true ∧
      ∃ link, Anchor r (web.page url) link target := by
  obtain ⟨parser, fed⟩ := Option.isSome_iff_exists.mp parses
  have hrefs : ∀ link, link ∈ parser.urls ↔ _ := fun _ => mem_mapM (Parser.urls_feedText fed)
  have swarm := engine_swarm made
  have ok : ∀ link,
      (∀ filter ∈ e.urlFilters, filter (web.reply url) (e.swarm.ofString link) = true) ↔ _ :=
    fun link => List.all_eq_true.symm.trans (urlOk_iff made)
  constructor
  · rintro ⟨link, followed, rfl⟩
    obtain ⟨accepted, member, kept⟩ := (followed_iff made fed).mp followed
    obtain ⟨valid, validTarget, scheme, -, other, filters⟩ := EngineData.kept_iff.mp kept
    obtain ⟨host, word, port⟩ := (ok link).mp filters
    simp only [EngineData.requestUrl, swarm] at valid validTarget scheme other ⊢
    exact ⟨accepted, link, (hrefs link).mp member, rfl, ⟨valid, validTarget⟩, scheme, other, host,
      word, port⟩
  · rintro ⟨accepted, link, anchor⟩
    have target := anchor.resolved
    subst target
    refine ⟨link, (followed_iff made fed).mpr ⟨accepted, (hrefs link).mpr anchor.href, ?_⟩, ?_⟩
    · refine EngineData.kept_iff.mpr ?_
      have filters := (ok link).mpr ⟨anchor.host, anchor.word, anchor.port⟩
      have host := anchor.host ▸ host_ne_nil made
      simp only [EngineData.requestUrl, swarm] at filters ⊢
      exact ⟨anchor.valid.1, anchor.valid.2, anchor.scheme, host, anchor.other, filters⟩
    · rw [EngineData.requestUrl, swarm]
      rfl

namespace AnchorPage

/-- Every page is one anchor, and the same one inside of a script. -/
def env : ParserEnv where
  tidy page := some (.node ⟨false, none, false, false, false, false, []⟩
    [.node ⟨true, some page, false, false, false, false, []⟩ [],
      .node ⟨false, none, true, false, false, false, []⟩
        [.node ⟨true, some page, false, false, false, false, []⟩ []]])
  detect _ := []
  charsetConvert _ _ := none

def start : Str := "http://h/".toList

def target : Str := "http://h/b".toList

def rindex : Rindex Str where
  swarm := PlainUrl.swarm
  env := env
  contentType _ := none
  isText _ := true
  url := start
  generationTime := ⟨1, 0⟩

def anchorWeb : Web Str where
  page url := ⟨url, 200, [], target⟩
  settled _ := rfl
  modified _ := nofun

theorem made : rindex.engine.isSome = true := by decide +kernel

theorem anchor : Anchor rindex (anchorWeb.page start) target target where
  href := ⟨target, List.mem_singleton.mpr rfl, rfl⟩
  resolved := by decide +kernel
  valid := by decide +kernel
  scheme := .inr (by decide +kernel)
  other := by decide +kernel
  host := by decide +kernel
  word := by decide +kernel
  port := by
    have none : rindex.swarm.port (rindex.swarm.ofString target) = none := by decide +kernel
    rw [none]
    exact nofun

end AnchorPage

/-- The anchor is followed. -/
theorem links_exact_anchorPage :
    AnchorPage.anchorWeb.LinksTo (AnchorPage.rindex.engine.get AnchorPage.made) AnchorPage.start
      AnchorPage.target :=
  (links_exact AnchorPage.rindex _ (Option.some_get AnchorPage.made).symm AnchorPage.anchorWeb
    AnchorPage.start rfl AnchorPage.target).mpr ⟨rfl, AnchorPage.target, AnchorPage.anchor⟩

/-! ### The store a crawl makes -/

/-- The calls of processors, oldest first. -/
def callsMade (log : List (EngineEvent Url)) : List (PageCall Url) :=
  log.reverse.filterMap fun
    | .processed functor reply data _ => some (functor, reply, data)
    | _ => none

theorem mem_callsMade {log : List (EngineEvent Url)} {call : PageCall Url} :
    call ∈ callsMade log ↔ EngineData.WasCalled log call := by
  rw [callsMade, List.mem_filterMap]
  constructor
  · rintro ⟨event, member, same⟩
    cases event with
    | processed functor reply data type =>
      cases same
      exact ⟨type, List.mem_reverse.mp member⟩
    | _ => cases same
  · rintro ⟨type, member⟩
    exact ⟨_, List.mem_reverse.mpr member, rfl⟩

variable (r) in
/-- **The updates of the calls**, each at the time its processor asked the clock. -/
def UpdatesOf (base : Str) (calls : List (PageCall Url)) (updates : List Update) : Prop :=
  List.Forall₂ (fun call update =>
    ∃ ts, update = r.processText base (call.1 == fallbackProcessor) call.2.1 call.2.2 ts)
    calls updates

/-- The store after a sequence of updates. -/
def Store.ofUpdates (loc : Locale) (ell : Elliptics) (updates : List Update) : Store :=
  updates.foldl (Store.process loc ell) ⟨fun _ => [], fun _ => none⟩

/-- Its indexes are those that the updates set. -/
theorem Store.indexes_ofUpdates (loc : Locale) (ell : Elliptics) (updates : List Update) :
    (Store.ofUpdates loc ell updates).indexes = Indexes.ofUpdates loc ell updates := by
  rw [Store.ofUpdates, Indexes.ofUpdates]
  exact (List.foldl_hom Store.indexes fun _ _ => rfl).symm

/-- The texts after one more update. -/
theorem Store.text_append (loc : Locale) (ell : Elliptics) (updates : List Update)
    (update : Update) : (Store.ofUpdates loc ell (updates ++ [update])).text =
      Function.update (Store.ofUpdates loc ell updates).text update.key
        (some (packDocument ⟨update.ts, update.key, update.content⟩)) := by
  simp only [Store.ofUpdates, List.foldl_append, List.foldl_cons, List.foldl_nil]
  rfl

/-- Every text of the store is one that an update wrote. -/
theorem Store.update_of_text {loc : Locale} {ell : Elliptics} {updates : List Update} {key : Str}
    {ptr : DataPointer} (held : (Store.ofUpdates loc ell updates).text key = some ptr) :
    ∃ update ∈ updates, update.key = key ∧
      ptr = packDocument ⟨update.ts, update.key, update.content⟩ := by
  induction updates using List.reverseRecOn with
  | nil => cases held
  | append_singleton updates update ih =>
    rw [Store.text_append] at held
    by_cases own : key = update.key
    · subst own
      rw [Function.update_self] at held
      cases held
      exact ⟨update, List.mem_append_right _ (List.mem_singleton.mpr rfl), rfl, rfl⟩
    · rw [Function.update_of_ne own] at held
      obtain ⟨before, member, same⟩ := ih held
      exact ⟨before, List.mem_append_left _ member, same⟩

/-- What an update wrote stays, if not replaced. -/
theorem Store.text_of_update {loc : Locale} {ell : Elliptics} {updates : List Update}
    {update : Update} (member : update ∈ updates) :
    ((Store.ofUpdates loc ell updates).text update.key).isSome = true := by
  induction updates using List.reverseRecOn with
  | nil => cases member
  | append_singleton updates latest ih =>
    rw [Store.text_append]
    by_cases own : update.key = latest.key
    · rw [own, Function.update_self]
      rfl
    · rw [Function.update_of_ne own]
      rcases List.mem_append.mp member with before | last
      · exact ih before
      · rw [List.mem_singleton.mp last] at own
        exact absurd rfl own

theorem exists_call {calls : List (PageCall Url)} {updates : List Update} {base : Str}
    (own : r.UpdatesOf base calls updates) {update : Update} (member : update ∈ updates) :
    ∃ call ∈ calls, ∃ ts,
      update = r.processText base (call.1 == fallbackProcessor) call.2.1 call.2.2 ts := by
  induction own with
  | nil => cases member
  | cons first _ ih =>
    rcases List.mem_cons.mp member with rfl | later
    · exact ⟨_, List.mem_cons_self, first⟩
    · obtain ⟨call, listed, same⟩ := ih later
      exact ⟨call, List.mem_cons_of_mem _ listed, same⟩

theorem exists_update {calls : List (PageCall Url)} {updates : List Update} {base : Str}
    (own : r.UpdatesOf base calls updates) {call : PageCall Url} (listed : call ∈ calls) :
    ∃ update ∈ updates, ∃ ts,
      update = r.processText base (call.1 == fallbackProcessor) call.2.1 call.2.2 ts := by
  induction own with
  | nil => cases listed
  | cons first _ ih =>
    rcases List.mem_cons.mp listed with rfl | later
    · exact ⟨_, List.mem_cons_self, first⟩
    · obtain ⟨update, member, same⟩ := ih later
      exact ⟨update, List.mem_cons_of_mem _ member, same⟩

/-! ### Crawling, then searching -/

/-- **A crawl of a web that came to rest.** The pages parse: the functors of the source throw on one
that does not. -/
structure Crawled (r : Rindex Url) (e : EngineData Url) (web : Web Url)
    (pageCache : Str → Option DataPointer) (events : List (FaultyAction Url))
    (pool : EnginePool Url) : Prop where
  made : r.engine = some e
  injective : Function.Injective r.swarm.toString
  old : ∀ key, e.requestsAfter (pageCache key) = true
  parses : ∀ url, (Parser.feedText r.env (web.page url).data).isSome = true
  run : Run e.stepFaulty web.Answers (e.initial pageCache) events pool
  quiet : EngineData.Quiet pool
  answered : pool.shared.outstanding = []

/-- **No two names that the search is about share a raw id.** -/
structure Distinct (r : Rindex Url) (base : Str) (loc : Locale) (ell : Elliptics)
    (query : FindResult.Query) (site : Set (Page Url)) : Prop where
  words : ∀ word ∈ query.words loc, ∀ other, (other ∈ query.words loc ∨
    ∃ page ∈ site, other ∈ loc.words (r.pageText false page.data)) →
      ell.transform word = ell.transform other → word = other
  keys : ∀ page ∈ site, ∀ other ∈ site,
    ell.transform (r.swarm.toString page.url) = ell.transform (r.swarm.toString other.url) →
      page.url = other.url
  base : ell.transform (base ++ ".collection".toList) ∉ transformTokens ell (query.names loc)

section Crawled

variable {base : Str} {web : Web Url} {pageCache : Str → Option DataPointer}
  {events : List (FaultyAction Url)} {pool : EnginePool Url}

/-- The pages that links lead to. -/
def site (e : EngineData Url) (web : Web Url) (pool : EnginePool Url) : Set (Page Url) :=
  {page | ∃ url, web.Reached e pool.shared.log url ∧ web.page url = page}

/-- The filters accept the page. -/
def accepts (e : EngineData Url) (web : Web Url) (page : Page Url) : Bool :=
  e.acceptedByFilters (web.reply page.url) page.data

/-- The text a page is indexed with. -/
def indexedText (r : Rindex Url) (e : EngineData Url) (web : Web Url) (page : Page Url) : Str :=
  r.pageText (!accepts e web page) page.data

/-- The filters decide about a page under any of its URLs alike. -/
theorem accepted_eq (ignores : e.IgnoresRequest) {page : Page Url} {asked : Url}
    (own : web.page asked = page) :
    e.acceptedByFilters (web.reply asked) page.data = accepts e web page := by
  have same : web.page asked = web.page page.url := by
    rw [← own]
    exact (web.settled asked).symm
  rw [accepts, EngineData.reply_of_same same, ignores.accepted]

/-- **A call was made on a page that links lead to**, of the fallback processor exactly if the
filters reject the page. -/
theorem page_of_call (crawled : Crawled r e web pageCache events pool) {call : PageCall Url}
    (called : EngineData.WasCalled pool.shared.log call) :
    ∃ page ∈ site e web pool, call.2.1.url = page.url ∧ call.2.2 = page.data ∧
      (call.1 == fallbackProcessor) = !accepts e web page := by
  have ignores := engine_ignores crawled.made
  have readable := EngineData.readable_of_old crawled.old
  obtain ⟨functor, reply, data⟩ := call
  obtain ⟨c, tracks, serving⟩ :=
    EngineData.Serving.of_run readable (crawled.run.mono fun _ _ _ => trivial)
  obtain ⟨announced, callee⟩ : .processing reply data ∈ c.shared.log ∧
    functor ∈ e.callees reply data := serving.called (functor, reply, data) (tracks.shared ▸ called)
  rw [tracks.shared] at announced
  obtain ⟨⟨given, content⟩, reached⟩ :=
    EngineData.found_of_announced readable crawled.run announced
  have came : reply.url = (web.page reply.requestUrl).url := congrArg Response.url given
  refine ⟨web.page reply.requestUrl, ⟨reply.requestUrl, reached, rfl⟩, came, content, ?_⟩
  rw [← accepted_eq ignores rfl, ← content, ← given]
  have modified : reply.code ≠ notModified := by
    rw [given]
    exact web.modified reply.requestUrl
  rw [engine_callees crawled.made modified] at callee
  split at callee
  · rename_i accepted
    rw [List.mem_singleton.mp callee, accepted]
    rfl
  · rename_i rejected
    rw [List.mem_singleton.mp callee, Bool.eq_false_iff.mpr rejected]
    rfl

/-- **Every page that links lead to** was passed to a processor. -/
theorem call_of_page (crawled : Crawled r e web pageCache events pool) {page : Page Url}
    (inside : page ∈ site e web pool) :
    ∃ functor reply, EngineData.WasCalled pool.shared.log (functor, reply, page.data) ∧
      reply.url = page.url := by
  have readable := EngineData.readable_of_old crawled.old
  have swarm := engine_swarm crawled.made
  obtain ⟨url, reached, same⟩ := inside
  obtain ⟨asked, announced, own, -⟩ := EngineData.announced_of_reached (swarm ▸ crawled.injective)
    (engine_ignores crawled.made) crawled.old crawled.run crawled.quiet crawled.answered reached
  rw [same] at announced own
  have callees : e.callees (web.reply asked) page.data = _ :=
    engine_callees crawled.made (web.modified asked)
  obtain ⟨functor, callee⟩ : ∃ functor, functor ∈ e.callees (web.reply asked) page.data := by
    rw [callees]
    split
    · exact ⟨_, List.mem_singleton.mpr rfl⟩
    · exact ⟨_, List.mem_singleton.mpr rfl⟩
  refine ⟨functor, web.reply asked, ?_, congrArg Page.url own⟩
  obtain ⟨c, tracks, serving⟩ :=
    EngineData.Serving.of_run readable (crawled.run.mono fun _ _ _ => trivial)
  rw [← tracks.shared] at announced ⊢
  exact serving.called_of_due tracks crawled.quiet ⟨announced, callee⟩

/-- The updates of a crawl, their writes done in any order. -/
structure Indexed (r : Rindex Url) (base : Str) (pool : EnginePool Url) (updates : List Update) :
    Prop where
  named : r.create = some base
  own : ∃ order, order.Perm (callsMade pool.shared.log) ∧ r.UpdatesOf base order updates

section Indexed

variable {updates : List Update} {loc : Locale} {ell : Elliptics} {query : FindResult.Query}

/-- **Every update is of a page that links lead to.** -/
theorem page_of_update (crawled : Crawled r e web pageCache events pool)
    (indexed : Indexed r base pool updates) {update : Update} (member : update ∈ updates) :
    ∃ page ∈ site e web pool, update.key = r.swarm.toString page.url ∧
      update.baseIndex = base ++ ".collection".toList ∧
      update.content = indexedText r e web page := by
  obtain ⟨order, perm, own⟩ := indexed.own
  obtain ⟨call, listed, ts, rfl⟩ := exists_call own member
  obtain ⟨page, inside, came, content, fallback⟩ :=
    page_of_call crawled (mem_callsMade.mp (perm.mem_iff.mp listed))
  refine ⟨page, inside, congrArg r.swarm.toString came, rfl, ?_⟩
  rw [indexedText, ← fallback, ← content]
  rfl

/-- **Every page that links lead to has an update.** -/
theorem update_of_page (crawled : Crawled r e web pageCache events pool)
    (indexed : Indexed r base pool updates) {page : Page Url} (inside : page ∈ site e web pool) :
    ∃ update ∈ updates, update.key = r.swarm.toString page.url := by
  obtain ⟨order, perm, own⟩ := indexed.own
  obtain ⟨functor, reply, called, came⟩ := call_of_page crawled inside
  obtain ⟨update, member, ts, rfl⟩ :=
    exists_update own (perm.mem_iff.mpr (mem_callsMade.mpr called))
  exact ⟨_, member, congrArg r.swarm.toString came⟩

/-- A page is what its own URL is answered with. -/
theorem page_of_site {page : Page Url} (inside : page ∈ site e web pool) :
    web.page page.url = page := by
  obtain ⟨url, -, rfl⟩ := inside
  exact web.settled url

/-- Two pages of one URL are the same. -/
theorem page_unique {page other : Page Url} (inside : page ∈ site e web pool)
    (known : other ∈ site e web pool) (same : other.url = page.url) : other = page := by
  rw [← page_of_site inside, ← same]
  exact (page_of_site known).symm

/-- **Every page that links lead to has its text stored.** -/
theorem text_of_page (crawled : Crawled r e web pageCache events pool)
    (indexed : Indexed r base pool updates) {page : Page Url} (inside : page ∈ site e web pool) :
    ∃ ts, (Store.ofUpdates loc ell updates).text (r.swarm.toString page.url) =
      some (packDocument ⟨ts, r.swarm.toString page.url, indexedText r e web page⟩) := by
  obtain ⟨update, member, own⟩ := update_of_page crawled indexed inside
  obtain ⟨ptr, held⟩ := Option.isSome_iff_exists.mp
    (own ▸ Store.text_of_update member)
  obtain ⟨latest, listed, key, rfl⟩ := Store.update_of_text held
  obtain ⟨other, known, otherKey, -, text⟩ := page_of_update crawled indexed listed
  -- the document is of a page of this URL, hence of this page
  have again := page_unique inside known (crawled.injective (otherKey.symm.trans key))
  rw [text, key, again] at held
  exact ⟨latest.ts, held⟩

/-- **The texts of a crawl that came to rest**: the namespace holds one document for every page that
links lead to, its text, or none for a page that the filters reject; and nothing else. -/
theorem texts_exact (r : Rindex Url) (e : EngineData Url) (web : Web Url)
    (pageCache : Str → Option DataPointer) (events : List (FaultyAction Url))
    (pool : EnginePool Url) (crawled : Crawled r e web pageCache events pool) (base : Str)
    (updates : List Update) (indexed : Indexed r base pool updates) (loc : Locale) (ell : Elliptics)
    (key : Str) :
    (∀ ptr, (Store.ofUpdates loc ell updates).text key = some ptr →
      ∃ page ∈ site e web pool, r.swarm.toString page.url = key) ∧
    ∀ page ∈ site e web pool, r.swarm.toString page.url = key →
      ∃ ts, (Store.ofUpdates loc ell updates).text key =
        some (packDocument ⟨ts, key, indexedText r e web page⟩) := by
  constructor
  · intro ptr held
    obtain ⟨update, member, rfl, -⟩ := Store.update_of_text held
    obtain ⟨page, inside, same, -⟩ := page_of_update crawled indexed member
    exact ⟨page, inside, same.symm⟩
  · rintro page inside rfl
    exact text_of_page crawled indexed inside

/-- The words that the search is about are those of pages. -/
theorem apart_of_distinct (crawled : Crawled r e web pageCache events pool)
    (indexed : Indexed r base pool updates)
    (distinct : Distinct r base loc ell query (site e web pool)) :
    FindResult.Apart loc ell query updates := by
  refine fun word asked other concerned => distinct.words word asked other ?_
  rcases concerned with asked | ⟨update, member, listed⟩
  · exact .inl asked
  · obtain ⟨page, inside, -, -, own⟩ := page_of_update crawled indexed member
    rw [own, indexedText] at listed
    cases accepted : accepts e web page with
    | true =>
      rw [accepted] at listed
      exact .inr ⟨page, inside, listed⟩
    | false =>
      rw [accepted, Bool.not_false, pageText_fallback, loc.words_nil] at listed
      cases listed

/-- An update with something to set is the last of its object, or another is. -/
theorem exists_lastIndexed {update : Update} (member : update ∈ updates)
    (sets : update.baseIndex ≠ []) :
    ∃ newest, lastIndexed loc ell updates (ell.transform update.key) = some newest := by
  refine Option.isSome_iff_exists.mp (List.getLast?_isSome.mpr ?_)
  refine List.ne_nil_of_mem (List.mem_filter.mpr ⟨member, ?_⟩)
  have nonempty : (update.indexes loc).isEmpty = false := by
    rw [Update.indexes, prepareIndexes, if_neg sets]
    simp
  simp [nonempty]

/-- **The update that last set an object's indexes** is that of the page with this URL. -/
theorem lastIndexed_iff (crawled : Crawled r e web pageCache events pool)
    (indexed : Indexed r base pool updates)
    (distinct : Distinct r base loc ell query (site e web pool)) (id : RawId) (P : Str → Prop) :
    (∃ update, lastIndexed loc ell updates id = some update ∧ P update.content) ↔
      ∃ page ∈ site e web pool, ell.transform (r.swarm.toString page.url) = id ∧
        P (indexedText r e web page) := by
  constructor
  · rintro ⟨update, newest, holds⟩
    obtain ⟨member, rfl⟩ := mem_of_lastIndexed newest
    obtain ⟨page, inside, key, -, own⟩ := page_of_update crawled indexed member
    exact ⟨page, inside, congrArg ell.transform key.symm, own ▸ holds⟩
  · rintro ⟨page, inside, rfl, holds⟩
    obtain ⟨update, member, key⟩ := update_of_page crawled indexed inside
    obtain ⟨-, -, -, filed, -⟩ := page_of_update crawled indexed member
    obtain ⟨newest, same⟩ := exists_lastIndexed member (by simp [filed])
    rw [key] at same
    obtain ⟨listed, own⟩ := mem_of_lastIndexed same
    obtain ⟨other, known, otherKey, -, text⟩ := page_of_update crawled indexed listed
    -- the object is the page's, so the update is of the page again
    rw [otherKey] at own
    rw [page_unique inside known (distinct.keys other known page inside own)] at text
    exact ⟨newest, same, text ▸ holds⟩

/-- Only what the filters accept has words. -/
theorem has_indexedText (hasWord : query.words loc ≠ []) {page : Page Url} :
    FindResult.Has loc query (indexedText r e web page) ↔
      accepts e web page ∧ FindResult.Has loc query (r.pageText false page.data) := by
  rw [indexedText]
  cases accepts e web page with
  | true => exact (and_iff_right rfl).symm
  | false =>
    refine iff_of_false (fun has => ?_) fun both => Bool.noConfusion both.1
    obtain ⟨word, asked⟩ := List.exists_mem_of_ne_nil _ hasWord
    have listed := has.1 word asked
    rw [Bool.not_false, pageText_fallback, loc.words_nil] at listed
    cases listed

/-- **After a crawl that came to rest, a search finds exactly the pages that links lead to, that the
filters accept, and whose text has what the search looks for**, the words and the phrase where the
phrase repeats no word; however the threads ran, and in whatever order the indexes were written. -/
theorem finds_exactly (r : Rindex Url) (e : EngineData Url) (web : Web Url)
    (pageCache : Str → Option DataPointer) (events : List (FaultyAction Url))
    (pool : EnginePool Url) (crawled : Crawled r e web pageCache events pool) (base : Str)
    (updates : List Update) (indexed : Indexed r base pool updates) (loc : Locale) (ell : Elliptics)
    (query : FindResult.Query) (hasWord : query.words loc ≠ [])
    (distinct : Distinct r base loc ell query (site e web pool)) (request : FindResult.FindRequest)
    (names : List Str) (result : List FindResult.Entry)
    (answered : FindResult.Answered loc ell (Store.ofUpdates loc ell updates).indexes query.text
      request names result) :
    FindResult.Completes request result ∧
      (∀ id, id ∈ (FindResult.onResultReady request result none .new).1.resultIds ↔
        ∃ page ∈ site e web pool, ell.transform (r.swarm.toString page.url) = id ∧
          accepts e web page ∧ FindResult.Has loc query (r.pageText false page.data)) ∧
      (FindResult.NoRepeats loc query → ∀ id,
        id ∈ (FindResult.onResultReady request result none .new).1.resultIds ↔
          ∃ page ∈ site e web pool, ell.transform (r.swarm.toString page.url) = id ∧
            accepts e web page ∧ FindResult.Matches loc query (r.pageText false page.data)) := by
  rw [Store.indexes_ofUpdates] at answered
  have filed : FindResult.NoBaseAsked loc ell updates (transformTokens ell (query.names loc)) := by
    intro id update newest _
    obtain ⟨-, -, -, named, -⟩ := page_of_update crawled indexed (mem_of_lastIndexed newest).1
    exact .inr (named ▸ distinct.base)
  have found : ∀ id, id ∈ (FindResult.onResultReady request result none .new).1.resultIds ↔
      ∃ page ∈ site e web pool, ell.transform (r.swarm.toString page.url) = id ∧
        accepts e web page ∧ FindResult.Has loc query (r.pageText false page.data) := by
    intro id
    rw [FindResult.found_iff_lastIndexed hasWord (apart_of_distinct crawled indexed distinct)
      answered filed, lastIndexed_iff crawled indexed distinct]
    exact exists_congr fun page => and_congr_right fun _ => and_congr_right fun _ =>
      has_indexedText hasWord
  refine ⟨FindResult.completes_of_noBaseAsked answered filed, found, fun repeats id => ?_⟩
  refine (found id).trans (exists_congr fun page => and_congr_right fun _ => and_congr_right
    fun _ => and_congr_right fun _ => ?_)
  exact FindResult.has_iff_matches repeats

end Indexed

end Crawled

/-! ### A site of one page -/

namespace TextPage

def text : Str := ['a', ' ', 'b', ' ', 'c']

/-- Every page is one text. -/
def env : ParserEnv where
  tidy page := some (.node ⟨false, none, false, false, false, false, []⟩
    [.node ⟨false, none, false, false, true, true, page⟩ []])
  detect _ := []
  charsetConvert _ _ := none

def start : Str := "http://h/".toList

def rindex : Rindex Str where
  swarm := PlainUrl.swarm
  env := env
  contentType _ := none
  isText _ := true
  url := start
  generationTime := ⟨1, 0⟩

def textWeb : Web Str where
  page url := ⟨url, 200, [], text⟩
  settled _ := rfl
  modified _ := nofun

theorem made : rindex.engine.isSome = true := by decide +kernel

def crawler : EngineData Str := rindex.engine.get made

def actions : List (EngineAction Str) :=
  [.download start, .complete 0 start 200 [] text false] ++
    List.replicate 4 (.thread 0) ++ [.takeEffect 0, .thread 0]

def events : List (FaultyAction Str) := actions.map .action

theorem runs : (exec crawler.stepFaulty textWeb.answers (crawler.initial fun _ => none)
    events).isSome = true := rfl

theorem crawled : Crawled rindex crawler textWeb (fun _ => none) events (endState runs) where
  made := (Option.some_get made).symm
  injective _ _ same := same
  old _ := rfl
  parses _ := rfl
  run := Run.of_endState (fun _ _ => textWeb.answers_of_eval) runs
  quiet := by decide +kernel
  answered := rfl

theorem fed_start : ((endState runs).shared.log.all fun
    | .fed request => request.url == start
    | _ => true) = true := by decide +kernel

theorem start_mem : textWeb.page start ∈ site crawler textWeb (endState runs) :=
  ⟨start, ⟨start, ⟨none, List.mem_of_getElem? (i := 4) rfl⟩, .refl⟩, rfl⟩

/-- The text links to nothing. -/
theorem site_subset : site crawler textWeb (endState runs) ⊆ {textWeb.page start} := by
  rintro page ⟨url, ⟨seed, ⟨doc, fed⟩, path⟩, rfl⟩
  cases path with
  | refl =>
    have seed := List.all_eq_true.mp fed_start _ fed
    exact congrArg textWeb.page (beq_iff_eq.mp seed)
  | tail _ links =>
    obtain ⟨href, followed, -⟩ := links
    exact nomatch followed.member

def updates : List Update :=
  [⟨start, ['a', ' ', 'b', ' ', 'c', ' '], ⟨7, 0⟩, "h.collection".toList⟩]

theorem indexed : Indexed rindex ['h'] (endState runs) updates where
  named := by decide +kernel
  own := ⟨_, .refl _, .cons ⟨⟨7, 0⟩, rfl⟩ .nil⟩

theorem distinct : Distinct rindex ['h'] .ascii .plain FindResult.twoWords
    (site crawler textWeb (endState runs)) where
  words := by
    have known : ∀ other, (other ∈ FindResult.twoWords.words .ascii ∨
        ∃ page ∈ site crawler textWeb (endState runs),
          other ∈ Locale.ascii.words (rindex.pageText false page.data)) →
          other ∈ [['a'], ['b'], ['c']] := by
      rintro other (asked | ⟨page, inside, member⟩)
      · revert asked
        exact List.forall_iff_forall_mem.mp (by decide +kernel) other
      · rw [site_subset inside] at member
        revert member
        exact List.forall_iff_forall_mem.mp (by decide +kernel) other
    have distinct : ∀ v ∈ [['a'], ['b'], ['c']], ∀ w ∈ [['a'], ['b'], ['c']],
        Elliptics.plain.transform v = Elliptics.plain.transform w → v = w := by decide +kernel
    exact fun word asked other concerned same =>
      distinct word (known word (.inl asked)) other (known other concerned) same
  keys page inside other known _ := by
    rw [site_subset inside, site_subset known]
  base := by decide +kernel

end TextPage

/-- Its text is stored. -/
theorem texts_exact_textPage :
    ∃ ts, (Store.ofUpdates .ascii .plain TextPage.updates).text TextPage.start =
      some (packDocument ⟨ts, TextPage.start, indexedText TextPage.rindex TextPage.crawler
        TextPage.textWeb (TextPage.textWeb.page TextPage.start)⟩) :=
  (texts_exact TextPage.rindex TextPage.crawler TextPage.textWeb (fun _ => none) TextPage.events
    (endState TextPage.runs) TextPage.crawled ['h'] TextPage.updates TextPage.indexed .ascii .plain
    TextPage.start).2 (TextPage.textWeb.page TextPage.start) TextPage.start_mem rfl

/-- It is found. -/
theorem finds_exactly_textPage :
    Elliptics.plain.transform TextPage.start ∈ (FindResult.onResultReady
        (FindResult.twoWords.request .ascii .plain)
        (FindResult.findAllIndexes .ascii .plain TextPage.updates
          (transformTokens .plain (FindResult.twoWords.names .ascii))) none .new).1.resultIds ↔
      ∃ page ∈ site TextPage.crawler TextPage.textWeb (endState TextPage.runs),
        Elliptics.plain.transform (TextPage.rindex.swarm.toString page.url) =
          Elliptics.plain.transform TextPage.start ∧
        accepts TextPage.crawler TextPage.textWeb page ∧
        FindResult.Matches .ascii FindResult.twoWords (TextPage.rindex.pageText false page.data) :=
  (finds_exactly TextPage.rindex TextPage.crawler TextPage.textWeb (fun _ => none) TextPage.events
    (endState TextPage.runs) TextPage.crawled ['h'] TextPage.updates TextPage.indexed .ascii .plain
    FindResult.twoWords (by decide +kernel) TextPage.distinct _ _ _
    ⟨FindResult.find_query _ _ _, by
      rw [Store.indexes_ofUpdates]
      exact FindResult.returned_findAllIndexes _ _ _ _⟩).2.2 FindResult.noRepeats_twoWords _

end Rindex

end Wookie
