/-
**The pages a crawl fetches are those that links lead to.**

Over a web that answers every request, and always with the same page, a crawl that starts without
copies of its own generation fetches exactly the pages that can be reached from the URLs passed to
`engine::download`, whatever its threads do in what order.

* `Web` — a page for every URL, where redirects led to the end.
* `Web.LinksTo` — a followed link of a URL's page; `Web.Reached` — the URLs that links lead to.
* `EngineData.IgnoresRequest` — parsers and filters do not look at the URL that was asked for. Those
  of the library do not: `createDomainFilter_ignores`.
* `Sound` — **every request, and every page announced, is of a URL that links lead to**; in every
  state of every run.
* `crawl_exact` — and once the crawl comes to rest, every page that links lead to was announced.
* `crawl_mirrors` — **and the page cache holds a copy of each of them**, and is as it was elsewhere.
-/

import Mathlib.Logic.Relation
import Wookie.Engine.Closure
import Wookie.Engine.Filters

namespace Wookie

open Library

variable {Url : Type}

/-- What a URL is answered with. -/
structure Page (Url : Type) where
  /-- Where the redirects led. -/
  url : Url
  code : ℕ
  headers : List (Str × Str)
  data : Str
  deriving DecidableEq

/-- **A web that does not change**: from where redirects led there are no further ones, and no
answer is a `304`. -/
structure Web (Url : Type) where
  page : Url → Page Url
  settled : ∀ url, page (page url).url = page url
  modified : ∀ url, (page url).code ≠ notModified

namespace Web

variable (web : Web Url)

/-- The reply to a request for a URL. -/
def reply (url : Url) : Response Url :=
  ⟨url, (web.page url).url, (web.page url).code, (web.page url).headers⟩

/-- The reply is the web's. -/
def Gives (reply : Response Url) (data : Str) : Prop :=
  reply = web.reply reply.requestUrl ∧ data = (web.page reply.requestUrl).data

variable (e : EngineData Url)

/-- A followed link of the page leads to this URL. -/
def LinksTo (url target : Url) : Prop := target ∈ e.targets (web.reply url) (web.page url).data

/-- The URL was passed to `engine::download`. -/
def Seed (log : List (EngineEvent Url)) (url : Url) : Prop :=
  ∃ doc, .fed ⟨url, doc, .direct⟩ ∈ log

/-- Links lead to the URL from one passed to `engine::download`. -/
def Reached (log : List (EngineEvent Url)) (url : Url) : Prop :=
  ∃ seed, Seed log seed ∧ Relation.ReflTransGen (web.LinksTo e) seed url

/-- **The condition on a step**: the downloader answers with the web's page. -/
def Answers (pool : EnginePool Url) : FaultyAction Url → Prop
  | .action (.complete n url code headers data error) =>
    error = false ∧ ∀ request, pool.shared.outstanding[n]? = some request →
      web.page request.url = ⟨url, code, headers, data⟩
  | _ => True

/-- The condition, evaluated. -/
def answers [DecidableEq Url] (pool : EnginePool Url) : FaultyAction Url → Bool
  | .action (.complete n url code headers data error) =>
    !error && pool.shared.outstanding[n]?.all fun request =>
      web.page request.url == ⟨url, code, headers, data⟩
  | _ => true

theorem answers_of_eval [DecidableEq Url] {pool : EnginePool Url} {event : FaultyAction Url}
    (holds : web.answers pool event = true) : web.Answers pool event := by
  cases event with
  | action a =>
    cases a with
    | complete n url code headers data error =>
      obtain ⟨clean, same⟩ := Bool.and_eq_true_iff.mp holds
      refine ⟨by simpa using clean, fun request found => ?_⟩
      rw [found] at same
      exact beq_iff_eq.mp same
    | _ => trivial
  | _ => trivial

end Web

namespace EngineData

/-- The functors do not look at the URL that was asked for. -/
structure IgnoresRequest (e : EngineData Url) : Prop where
  parser : ∀ parser ∈ e.parsers, ∀ reply asked data,
    parser { reply with requestUrl := asked } data = parser reply data
  filter : ∀ filter ∈ e.filters, ∀ reply asked data,
    filter { reply with requestUrl := asked } data = filter reply data
  urlFilter : ∀ filter ∈ e.urlFilters, ∀ reply asked url,
    filter { reply with requestUrl := asked } url = filter reply url

variable {e : EngineData Url} {web : Web Url} {pageCache : Str → Option DataPointer}
  {c c' : Crawl Url} {event : FaultyAction Url} {log log' : List (EngineEvent Url)}

/-! ### What the functors look at -/

/-- The domain filter resolves against the URL the page came from. -/
theorem createDomainFilter_ignores {swarm : SwarmUrl Url} {start : Str}
    {filter : Response Url → Url → Bool} (made : createDomainFilter swarm start = some filter)
    (reply : Response Url) (asked url : Url) :
    filter { reply with requestUrl := asked } url = filter reply url := by
  simp only [createDomainFilter] at made
  split at made
  · cases made
  · cases made
    rfl

/-- Nor does what is accepted. -/
theorem IgnoresRequest.accepted (ignores : e.IgnoresRequest) (reply : Response Url) (asked : Url)
    (data : Str) : e.acceptedByFilters { reply with requestUrl := asked } data =
      e.acceptedByFilters reply data := by
  refine Bool.eq_iff_iff.mpr ?_
  rw [acceptedByFilters, acceptedByFilters, List.all_eq_true, List.all_eq_true]
  exact forall₂_congr fun filter member => by rw [ignores.filter filter member]

/-- **What is followed does not depend on the URL that was asked for.** -/
theorem IgnoresRequest.followed (ignores : e.IgnoresRequest) {reply : Response Url} {asked : Url}
    {data href : Str} (followed : e.Followed reply data href) :
    e.Followed { reply with requestUrl := asked } data href where
  accepted := (ignores.accepted reply asked data).trans followed.accepted
  member := by
    have same : e.links { reply with requestUrl := asked } data = e.links reply data := by
      unfold EngineData.links
      rw [List.flatMap_congr fun parser member => ignores.parser parser member reply asked data]
    rw [same]
    exact followed.member
  kept := followed.kept
  ok := List.all_eq_true.mpr fun filter member => by
    rw [ignores.urlFilter filter member]
    exact List.all_eq_true.mp followed.ok filter member

/-- Replies with one page differ in the URL that was asked for only. -/
theorem reply_of_same {url other : Url} (same : web.page other = web.page url) :
    web.reply other = { web.reply url with requestUrl := other } := by
  simp only [Web.reply, same]

/-- One page has the same links under each of its URLs. -/
theorem IgnoresRequest.linksTo (ignores : e.IgnoresRequest) {url other target : Url}
    (same : web.page other = web.page url) (links : web.LinksTo e url target) :
    web.LinksTo e other target := by
  obtain ⟨href, followed, resolved⟩ := links
  refine ⟨href, ?_, ?_⟩
  · rw [reply_of_same same, same]
    exact ignores.followed followed
  · rw [reply_of_same same]
    exact resolved

/-! ### Only what links lead to -/

theorem reached_mono {url : Url} (reached : web.Reached e log url) (grows : log ⊆ log') :
    web.Reached e log' url := by
  obtain ⟨seed, ⟨doc, fed⟩, path⟩ := reached
  exact ⟨seed, ⟨doc, grows fed⟩, path⟩

theorem reached_link {url target : Url} (reached : web.Reached e log url)
    (links : web.LinksTo e url target) : web.Reached e log target := by
  obtain ⟨seed, fed, path⟩ := reached
  exact ⟨seed, fed, path.tail links⟩

/-- A page of the web, of a URL that links lead to. -/
def Found (e : EngineData Url) (web : Web Url) (log : List (EngineEvent Url))
    (reply : Response Url) (data : Str) : Prop :=
  web.Gives reply data ∧ web.Reached e log reply.requestUrl

/-- **Every request and every page is of a URL that links lead to.** -/
structure Sound (e : EngineData Url) (web : Web Url) (c : Crawl Url) : Prop where
  outstanding : ∀ request ∈ c.shared.outstanding, web.Reached e c.shared.log request.url
  fed : ∀ request, .fed request ∈ c.shared.log → web.Reached e c.shared.log request.url
  page : ∀ i reply data, (c.duties i).page = some (reply, data) →
    Found e web c.shared.log reply data
  announced : ∀ reply data, .processing reply data ∈ c.shared.log →
    Found e web c.shared.log reply data
  targets : ∀ i, ∀ url ∈ (c.duties i).targets, web.Reached e c.shared.log url
  completed : ∀ request error, .completed request error ∈ c.shared.log → error = false

namespace Sound

theorem initial (web : Web Url) (pageCache : Str → Option DataPointer) :
    Sound e web ⟨(e.initial pageCache).shared, fun _ => .none⟩ where
  outstanding _ member := nomatch member
  fed _ member := nomatch member
  page _ _ _ page := nomatch page
  announced _ _ member := nomatch member
  targets _ _ member := member.elim
  completed _ _ member := nomatch member

theorem found_mono {reply : Response Url} {data : Str} (found : Found e web log reply data)
    (grows : log ⊆ log') : Found e web log' reply data :=
  ⟨found.1, reached_mono found.2 grows⟩

/-- **A step**: what is new in the requests, in the log and in the duties is sound. -/
theorem frame (sound : Sound e web c) (grows : c.shared.log ⊆ c'.shared.log)
    (outstanding : ∀ request ∈ c'.shared.outstanding, request ∈ c.shared.outstanding ∨
      web.Reached e c'.shared.log request.url)
    (log : ∀ latest ∈ c'.shared.log, latest ∈ c.shared.log ∨
      (∀ request, latest = .fed request → web.Reached e c'.shared.log request.url) ∧
      (∀ reply data, latest = .processing reply data → Found e web c'.shared.log reply data) ∧
      ∀ request error, latest = .completed request error → error = false)
    (duties : ∀ i, (∀ reply data, (c'.duties i).page = some (reply, data) →
        (c.duties i).page = some (reply, data) ∨ Found e web c'.shared.log reply data) ∧
      ∀ url ∈ (c'.duties i).targets, url ∈ (c.duties i).targets ∨
        web.Reached e c'.shared.log url) : Sound e web c' where
  outstanding request member := by
    rcases outstanding request member with before | reached
    · exact reached_mono (sound.outstanding request before) grows
    · exact reached
  fed request member := by
    rcases log _ member with before | ⟨new, -, -⟩
    · exact reached_mono (sound.fed request before) grows
    · exact new request rfl
  page i reply data page := by
    rcases (duties i).1 reply data page with before | found
    · exact found_mono (sound.page i reply data before) grows
    · exact found
  announced reply data member := by
    rcases log _ member with before | ⟨-, new, -⟩
    · exact found_mono (sound.announced reply data before) grows
    · exact new reply data rfl
  targets i url target := by
    rcases (duties i).2 url target with before | reached
    · exact reached_mono (sound.targets i url before) grows
    · exact reached
  completed request error member := by
    rcases log _ member with before | ⟨-, -, new⟩
    · exact sound.completed request error before
    · exact new request error rfl

/-- A thread's part in a move after which its page and its targets are sound. -/
theorem duties_moved {shared : EngineState Url} {i : ℕ} {φ : Duty Url}
    (page : ∀ reply data, φ.page = some (reply, data) →
      (c.duties i).page = some (reply, data) ∨ Found e web shared.log reply data)
    (targets : ∀ url ∈ φ.targets, url ∈ (c.duties i).targets ∨ web.Reached e shared.log url)
    (j : ℕ) :
    (∀ reply data, ((c.moved shared i φ).duties j).page = some (reply, data) →
      (c.duties j).page = some (reply, data) ∨ Found e web shared.log reply data) ∧
    ∀ url ∈ ((c.moved shared i φ).duties j).targets, url ∈ (c.duties j).targets ∨
      web.Reached e shared.log url := by
  by_cases same : j = i
  · subst same
    rw [Crawl.moved_self]
    exact ⟨page, targets⟩
  · rw [Crawl.moved_other same]
    exact ⟨fun _ _ => .inl, fun _ => .inl⟩

/-- An event that is no request, no page and no answer. -/
theorem log_cons {latest : EngineEvent Url} {P : EngineEvent Url → Prop} (new : P latest)
    (event : EngineEvent Url) (member : event ∈ latest :: log) : event ∈ log ∨ P event := by
  rcases List.mem_cons.mp member with rfl | before
  · exact .inr new
  · exact .inl before

/-- **A request** for a URL that links lead to. -/
theorem submit (sound : Sound e web c) (request : Request Url) (duties : ℕ → Duty Url)
    (own : web.Reached e (c.shared.submit request).log request.url)
    (same : ∀ i, (duties i).page = (c.duties i).page ∧ (duties i).targets = (c.duties i).targets) :
    Sound e web ⟨c.shared.submit request, duties⟩ := by
  refine sound.frame (List.subset_cons_self _ _) (fun other member => ?_) ?_ fun i => ?_
  · rcases List.mem_append.mp member with before | new
    · exact .inl before
    · rw [List.mem_singleton.mp new]
      exact .inr own
  · refine log_cons ⟨fun other same => ?_, fun _ _ => nofun, fun _ _ => nofun⟩
    cases same
    exact own
  · rw [(same i).1, (same i).2]
    exact ⟨fun _ _ => .inl, fun _ => .inl⟩

/-- **An answer of the web** gives the thread a page of a URL that links lead to. -/
theorem complete (sound : Sound e web c) {n i : ℕ} {request : Request Url} {url : Url} {code : ℕ}
    {headers : List (Str × Str)} {data : Str} (oldDoc : Document)
    (found : c.shared.outstanding[n]? = some request)
    (answers : web.page request.url = ⟨url, code, headers, data⟩) :
    Sound e web (c.moved (e.completedState n request false c.shared) i
      (entryDuty ⟨request.url, url, code, headers⟩ data false oldDoc)) := by
  have modified : code ≠ notModified := by
    have modified := web.modified request.url
    rwa [answers] at modified
  have grows : c.shared.log ⊆ .completed request false :: c.shared.log := List.subset_cons_self _ _
  have own : Found e web (.completed request false :: c.shared.log)
      ⟨request.url, url, code, headers⟩ data := by
    refine ⟨⟨?_, ?_⟩, reached_mono (sound.outstanding request (List.mem_of_getElem? found)) grows⟩
    · simp only [Web.reply, answers]
    · simp only [answers]
  refine sound.frame grows (fun other member => .inl (List.mem_of_mem_eraseIdx member))
    (log_cons ⟨fun _ => nofun, fun _ _ => nofun, fun other error same => ?_⟩)
    (duties_moved (fun reply page same => ?_) fun url target => ?_)
  · cases same
    rfl
  · simp only [entryDuty, Bool.false_eq_true, if_false, if_pos modified] at same
    cases same
    exact .inr own
  · exact target.elim

/-- **A page is announced**: links lead to what its links lead to. -/
theorem announce (sound : Sound e web c) {i : ℕ} {reply : Response Url} {data : Str}
    (page : (c.duties i).page = some (reply, data)) :
    Sound e web (c.moved { c.shared with log := .processing reply data :: c.shared.log } i
      ((c.duties i).announce (e.work reply data))) := by
  have grows : c.shared.log ⊆ .processing reply data :: c.shared.log := List.subset_cons_self _ _
  have own := found_mono (sound.page i reply data page) grows
  refine sound.frame grows (fun _ => .inl)
    (log_cons ⟨fun _ => nofun, fun other content same => ?_, fun _ _ => nofun⟩)
    (duties_moved (fun _ _ => nofun) ?_)
  · cases same
    exact own
  · rintro url (before | target)
    · exact .inl before
    · refine .inr (reached_link own.2 ?_)
      obtain ⟨⟨given, content⟩, -⟩ := own
      rw [given, content] at target
      exact target

theorem step {pool : EnginePool Url} (sound : Sound e web c) (same : c.shared = pool.shared)
    (answers : web.Answers pool event) (move : e.Move event c c') : Sound e web c' := by
  cases move with
  | aside _ now =>
    exact ⟨sound.outstanding, sound.fed, sound.page, sound.announced, sound.targets,
      sound.completed⟩
  | serve _ _ i functor reply data type own =>
    exact sound.frame (List.subset_cons_self _ _) (fun _ => .inl)
      (log_cons ⟨fun _ => nofun, fun _ _ => nofun, fun _ _ => nofun⟩)
      (duties_moved (fun _ _ => .inl) fun _ => .inl)
  | download _ url =>
    exact sound.submit ⟨url, none, .direct⟩ _ ⟨url, ⟨none, List.mem_cons_self⟩, .refl⟩
      fun _ => ⟨rfl, rfl⟩
  | complete _ n i request url code headers data error oldDoc found fresh taken =>
    obtain ⟨rfl, answers⟩ := answers
    exact sound.complete oldDoc found (answers request (same ▸ found))
  | announce _ _ i reply data page => exact sound.announce page
  | submit _ _ i url doc target =>
    exact sound.submit ⟨url, doc, .link⟩ _
      (reached_mono (sound.targets i url target) (List.subset_cons_self _ _))
      (Pages.same_moved c.shared rfl rfl)
  | store _ _ n doc found =>
    exact sound.frame (List.subset_cons_self _ _) (fun _ => .inl)
      (log_cons ⟨fun _ => nofun, fun _ _ => nofun, fun _ _ => nofun⟩)
      fun _ => ⟨fun _ _ => .inl, fun _ => .inl⟩
  | failWrite _ n =>
    exact ⟨sound.outstanding, sound.fed, sound.page, sound.announced, sound.targets,
      sound.completed⟩
  | lookUp | found | write | waited =>
    exact sound.frame (List.Subset.refl _) (fun _ => .inl) (fun _ => .inl)
      (duties_moved (fun _ _ => .inl) fun _ => .inl)

end Sound

/-- A cache whose copies all lead to requests unpacks. -/
theorem readable_of_old (old : ∀ key, e.requestsAfter (pageCache key) = true) :
    Readable pageCache := by
  intro key file held
  have leads := old key
  rcases e.read_cases file with ⟨error, unreadable⟩ | ⟨doc, read, -⟩ | ⟨doc, read, -⟩
  · rw [held, requestsAfter_error unreadable] at leads
    cases leads
  · exact ⟨doc, read⟩
  · exact ⟨doc, read⟩

/-- **Every run over the web is sound.** -/
theorem Sound.of_run {events : List (FaultyAction Url)} {pool : EnginePool Url}
    (readable : Readable pageCache)
    (run : Run e.stepFaulty web.Answers (e.initial pageCache) events pool) :
    ∃ c, Tracks e pool c ∧ Sound e web c :=
  crawl_invariant (Sound e web) readable run (.initial web pageCache)
    fun _ _ _ _ tracks answers sound move => sound.step tracks.shared answers move

/-- **Every page announced** is one of the web, of a URL that links lead to. -/
theorem found_of_announced {events : List (FaultyAction Url)} {pool : EnginePool Url}
    (readable : Readable pageCache)
    (run : Run e.stepFaulty web.Answers (e.initial pageCache) events pool) {reply : Response Url}
    {data : Str} (announced : .processing reply data ∈ pool.shared.log) :
    Found e web pool.shared.log reply data := by
  obtain ⟨c, tracks, sound⟩ := Sound.of_run readable run
  rw [← tracks.shared] at announced ⊢
  exact sound.announced reply data announced

/-! ### All that links lead to -/

/-- The page was announced, under some URL. -/
def PageAnnounced (web : Web Url) (log : List (EngineEvent Url)) (page : Page Url) : Prop :=
  ∃ asked, .processing (web.reply asked) page.data ∈ log ∧ web.page asked = page

/-- The copy is one of a page that links lead to. -/
def Mirrored (e : EngineData Url) (web : Web Url) (log : List (EngineEvent Url))
    (copy : Str × Str) : Prop :=
  ∃ url, web.Reached e log url ∧ copy ∈ e.copies (web.reply url) (web.page url).data

/-- **One URL has one content**: that of the page it leads to. -/
theorem Mirrored.content {key data other : Str} (injective : Function.Injective e.swarm.toString)
    (first : Mirrored e web log (key, data)) (second : Mirrored e web log (key, other)) :
    data = other := by
  have read : ∀ {data}, Mirrored e web log (key, data) →
      ∃ url, e.swarm.toString url = key ∧ (web.page url).data = data := by
    rintro data ⟨url, -, came | asked⟩
    · cases came
      exact ⟨(web.page url).url, rfl, by rw [web.settled]⟩
    · cases asked
      exact ⟨url, rfl, rfl⟩
  obtain ⟨url, rfl, rfl⟩ := read first
  obtain ⟨url', same, rfl⟩ := read second
  rw [injective same]

/-- **A key with an outcome has its page announced**, where no request failed and no copy was of
this generation. The page may have been asked for under another of its URLs. -/
theorem Outcome.announced {url : Url} (sound : Sound e web c)
    (injective : Function.Injective e.swarm.toString)
    (old : ∀ key, e.requestsAfter (pageCache key) = true)
    (outcome : Outcome e pageCache c.shared.log (e.swarm.toString url)) :
    ∃ asked, .processing (web.reply asked) (web.page url).data ∈ c.shared.log ∧
      web.page asked = web.page url ∧ (url = (web.page asked).url ∨ url = asked) := by
  rcases outcome with ⟨content, reply, data, announced, copy⟩ | ⟨request, failed, -⟩ | fresh
  · obtain ⟨⟨given, page⟩, -⟩ := sound.announced reply data announced
    have place : url = (web.page reply.requestUrl).url ∨ url = reply.requestUrl := by
      rcases copy with came | asked
      · have came := injective (Prod.mk.inj came).1
        rw [given] at came
        exact .inl came
      · exact .inr (injective (Prod.mk.inj asked).1)
    have same : web.page reply.requestUrl = web.page url := by
      rcases place with came | asked
      · rw [came]
        exact (web.settled reply.requestUrl).symm
      · rw [asked]
    refine ⟨reply.requestUrl, ?_, same, place⟩
    rw [← same, ← page, ← given]
    exact announced
  · cases sound.completed request true failed
  · rw [old] at fresh
    cases fresh

/-- **What links lead to has an outcome**, once the crawl came to rest. -/
theorem outcome_of_reached {events : List (FaultyAction Url)} {pool : EnginePool Url}
    (injective : Function.Injective e.swarm.toString) (ignores : e.IgnoresRequest)
    (old : ∀ key, e.requestsAfter (pageCache key) = true)
    (run : Run e.stepFaulty web.Answers (e.initial pageCache) events pool) (quiet : Quiet pool)
    (answered : pool.shared.outstanding = []) {url : Url}
    (reached : web.Reached e pool.shared.log url) :
    Outcome e pageCache pool.shared.log (e.swarm.toString url) := by
  have readable := readable_of_old old
  obtain ⟨c, tracks, sound⟩ := Sound.of_run readable run
  obtain ⟨c', tracks', pages, covering⟩ := Covering.of_run readable (run.mono fun _ _ _ => trivial)
  have done := tracks'.done quiet
  have logs : c'.shared.log = c.shared.log := by rw [tracks'.shared, tracks.shared]
  rw [← tracks'.shared] at answered reached ⊢
  obtain ⟨seed, ⟨doc, fed⟩, path⟩ := reached
  -- along the path every page is announced, maybe under another of its URLs
  induction path with
  | refl => exact pages.outcome done answered fed
  | @tail url target _ links outcome =>
    rw [logs] at outcome
    obtain ⟨asked, announced, same, -⟩ := outcome.announced sound injective old
    rw [← logs] at announced
    refine (covering _).outcome pages done answered
      ⟨web.reply asked, (web.page url).data, announced, ?_⟩
    have followed := ignores.linksTo same links
    unfold Web.LinksTo at followed
    rwa [same] at followed

/-- **A page that links lead to is announced**, under its URL or the one it came from. -/
theorem announced_of_reached {events : List (FaultyAction Url)} {pool : EnginePool Url}
    (injective : Function.Injective e.swarm.toString) (ignores : e.IgnoresRequest)
    (old : ∀ key, e.requestsAfter (pageCache key) = true)
    (run : Run e.stepFaulty web.Answers (e.initial pageCache) events pool) (quiet : Quiet pool)
    (answered : pool.shared.outstanding = []) {url : Url}
    (reached : web.Reached e pool.shared.log url) :
    ∃ asked, .processing (web.reply asked) (web.page url).data ∈ pool.shared.log ∧
      web.page asked = web.page url ∧ (url = (web.page asked).url ∨ url = asked) := by
  have outcome := outcome_of_reached injective ignores old run quiet answered reached
  obtain ⟨c, tracks, sound⟩ := Sound.of_run (readable_of_old old) run
  rw [← tracks.shared] at outcome ⊢
  exact outcome.announced sound injective old

/-- **The copies of the pages announced** are those of the pages that links lead to. -/
theorem announced_iff_mirrored {events : List (FaultyAction Url)} {pool : EnginePool Url}
    (injective : Function.Injective e.swarm.toString) (ignores : e.IgnoresRequest)
    (old : ∀ key, e.requestsAfter (pageCache key) = true)
    (run : Run e.stepFaulty web.Answers (e.initial pageCache) events pool) (quiet : Quiet pool)
    (answered : pool.shared.outstanding = []) {copy : Str × Str} :
    e.Announced pool.shared.log copy ↔ Mirrored e web pool.shared.log copy := by
  constructor
  · rintro ⟨reply, data, announced, own⟩
    obtain ⟨⟨given, content⟩, reached⟩ := found_of_announced (readable_of_old old) run announced
    rw [given, content] at own
    exact ⟨reply.requestUrl, reached, own⟩
  · rintro ⟨url, reached, own⟩
    obtain ⟨asked, announced, same, place⟩ :=
      announced_of_reached injective ignores old run quiet answered reached
    refine ⟨web.reply asked, (web.page url).data, announced, ?_⟩
    have came : (web.page asked).url = (web.page url).url := by rw [same]
    rcases own with redirected | own
    · rw [redirected]
      exact .inl (congrArg (e.swarm.toString ·, _) came.symm)
    · rw [Set.mem_singleton_iff.mp own]
      rcases place with settled | direct
      · exact .inl (congrArg (e.swarm.toString ·, _) settled)
      · exact .inr (congrArg (e.swarm.toString ·, _) direct)

/-- **A crawl fetches exactly the pages that links lead to.** In every state, what was requested is
where followed links lead from the URLs passed to `engine::download`; once no thread is at work and
no request is outstanding, the pages announced are those of all such URLs. -/
theorem crawl_exact (e : EngineData Url) (web : Web Url)
    (injective : Function.Injective e.swarm.toString) (ignores : e.IgnoresRequest)
    (pageCache : Str → Option DataPointer) (old : ∀ key, e.requestsAfter (pageCache key) = true)
    (events : List (FaultyAction Url)) (pool : EnginePool Url)
    (run : Run e.stepFaulty web.Answers (e.initial pageCache) events pool) :
    (∀ request, .fed request ∈ pool.shared.log → web.Reached e pool.shared.log request.url) ∧
    (Quiet pool → pool.shared.outstanding = [] → ∀ page,
      PageAnnounced web pool.shared.log page ↔
        ∃ url, web.Reached e pool.shared.log url ∧ web.page url = page) := by
  have readable := readable_of_old old
  refine ⟨fun request fed => ?_, fun quiet answered page => ⟨?_, ?_⟩⟩
  · obtain ⟨c, tracks, sound⟩ := Sound.of_run readable run
    rw [← tracks.shared] at fed ⊢
    exact sound.fed request fed
  · rintro ⟨asked, announced, rfl⟩
    exact ⟨asked, (found_of_announced readable run announced).2, rfl⟩
  · rintro ⟨url, reached, rfl⟩
    obtain ⟨asked, announced, same, -⟩ :=
      announced_of_reached injective ignores old run quiet answered reached
    exact ⟨asked, announced, same⟩

/-- **What the page cache holds**, over a web with no write that fails, once the crawl came to
rest. -/
theorem cached_of_mirrored {events : List (FaultyAction Url)} {pool : EnginePool Url}
    (injective : Function.Injective e.swarm.toString) (ignores : e.IgnoresRequest)
    (old : ∀ key, e.requestsAfter (pageCache key) = true)
    (run : Run e.stepFaulty (fun pool event => web.Answers pool event ∧ ∀ n, event ≠ .failWrite n)
      (e.initial pageCache) events pool) (quiet : Quiet pool)
    (answered : pool.shared.outstanding = []) {key data : Str}
    (mirrored : Mirrored e web pool.shared.log (key, data)) :
    ∃ doc, pool.shared.pageCache key = some (packDocument doc) ∧
      doc.ts.before e.generationTime = false ∧ doc.key = key ∧ doc.data = data := by
  have mirrors : ∀ {copy}, e.Announced pool.shared.log copy ↔ Mirrored e web pool.shared.log copy :=
    announced_iff_mirrored injective ignores old (run.mono fun _ _ meets => meets.1) quiet answered
  obtain ⟨c, tracks, copied, stored⟩ := Stored.of_run (readable_of_old old)
    (run.mono fun _ _ meets => meets.2)
  rw [← tracks.shared] at mirrors mirrored ⊢
  obtain ⟨doc, cached, fresh, own, announced⟩ :=
    stored.cached copied (tracks.done quiet) (mirrors.mpr mirrored)
  exact ⟨doc, cached, fresh, own, (mirrors.mp announced).content injective mirrored⟩

namespace LinkedPages

/-- Each page is a link to the other; there is nothing else. -/
def linkedWeb : Web Str where
  page url :=
    if url = TwoPages.first then ⟨url, 200, [], TwoPages.second⟩
    else if url = TwoPages.second then ⟨url, 200, [], TwoPages.first⟩
    else ⟨url, 404, [], []⟩
  settled url := by
    split
    · simp_all
    · split
      · simp_all
      · simp_all
  modified url := by
    have other : (200 : ℕ) ≠ notModified ∧ (404 : ℕ) ≠ notModified := by decide
    split
    · exact other.1
    · split
      · exact other.1
      · exact other.2

theorem runs_answered : (exec PlainUrl.crawler.stepFaulty linkedWeb.answers
    (PlainUrl.crawler.initial fun _ => none) linkedBack).isSome = true := rfl

theorem ignores : PlainUrl.crawler.IgnoresRequest where
  parser parser member reply asked data := by
    rw [List.mem_singleton.mp member]
  filter _ member := nomatch member
  urlFilter _ member := nomatch member

end LinkedPages

/-- From the first page, passed to `engine::download`, links lead to both. -/
theorem crawl_exact_linkedBack :
    PageAnnounced LinkedPages.linkedWeb (endState LinkedPages.runs_answered).shared.log
        (LinkedPages.linkedWeb.page TwoPages.second) ↔
      ∃ url, LinkedPages.linkedWeb.Reached PlainUrl.crawler
        (endState LinkedPages.runs_answered).shared.log url ∧
        LinkedPages.linkedWeb.page url = LinkedPages.linkedWeb.page TwoPages.second :=
  (crawl_exact PlainUrl.crawler LinkedPages.linkedWeb (fun _ _ same => same) LinkedPages.ignores
    (fun _ => none) (fun _ => rfl) LinkedPages.linkedBack (endState LinkedPages.runs_answered)
    (Run.of_endState (fun _ _ => LinkedPages.linkedWeb.answers_of_eval)
      LinkedPages.runs_answered)).2
    (by decide) rfl _

namespace LinkedPages

theorem runs_mirrored : (exec PlainUrl.crawler.stepFaulty
    (fun pool event => linkedWeb.answers pool event && !(event matches .failWrite _))
    (PlainUrl.crawler.initial fun _ => none) linkedBack).isSome = true := rfl

theorem mirrored : Mirrored PlainUrl.crawler linkedWeb (endState runs_mirrored).shared.log
    (TwoPages.first, TwoPages.second) :=
  ⟨TwoPages.first, ⟨TwoPages.first, ⟨none, List.mem_of_getLast? rfl⟩, .refl⟩, Set.mem_insert _ _⟩

end LinkedPages

end EngineData

end Wookie
