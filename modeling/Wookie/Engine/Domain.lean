/-
**A crawl stays within its domain.**

With the domain filter of its start URL registered, a crawl hands the downloader URLs of one host
only: the filter resolves a link against the same base as the link loop, wherever a redirect led.

* `Within allowed` — every request of the engine, at every stage of its life, is for an allowed URL.
* `Within.of_run` — a whole run stays within what its link loop and its direct downloads stay
  within.
* `domain_confined` — **every URL handed to the downloader has the host of the start URL.**
-/

import Wookie.Engine.Filters

namespace Wookie

open Library

variable {Url : Type}

namespace EngineData

variable (e : EngineData Url)

/-- **The condition on a step**: the application downloads the start URL only, and a processor
downloads only the URL of a request that was answered, its `reply.request().url()`. -/
def Restarts (start : Str) (pool : EnginePool Url) : EngineAction Url → Prop
  | .download url => url = e.swarm.ofString start ∨
      ∃ request error, .completed request error ∈ pool.shared.log ∧ url = request.url
  | _ => True

/-- Every request is for an allowed URL: those a thread can still make, those outstanding, and those
made and answered so far. -/
structure Within (allowed : Url → Prop) (pool : EnginePool Url) : Prop where
  threads : Pool.Keeps (submitting allowed) (fun _ => ()) pool
  outstanding : ∀ request ∈ pool.shared.outstanding, allowed request.url
  fed : ∀ request, .fed request ∈ pool.shared.log → allowed request.url
  completed : ∀ request error, .completed request error ∈ pool.shared.log → allowed request.url

variable {e} {allowed : Url → Prop} {pool pool' : EnginePool Url}

/-- A thread submits what the links it follows resolve to. -/
theorem afterErase_submitting
    (links : ∀ reply data href, e.Followed reply data href → allowed (e.requestUrl reply href))
    (reply : Response Url) (data : Str) (error : Bool) (oldDoc : Document) :
    Follows (submitting allowed) (fun _ => True) () (e.afterErase reply data error oldDoc) := by
  have processed : ∀ data, Follows (submitting allowed) (fun _ => True) ()
      (e.processReply reply data) := fun data =>
    (submitting_neutral.processReply fun href followed =>
      requestLink_follows submitting_neutral (fun _ => trivial) trivial
        (links reply data href followed)
        fun _ _ _ _ _ => ⟨trivial, links reply data href followed⟩).mono fun _ _ => trivial
  unfold afterErase
  split
  · trivial
  · split
    · exact processed data
    · exact processed oldDoc.data

namespace Within

theorem initial (e : EngineData Url) (allowed : Url → Prop) (pageCache : Str → Option DataPointer) :
    Within allowed (e.initial pageCache) where
  threads _ := trivial
  outstanding _ member := by cases member
  fed _ member := by cases member
  completed _ _ member := by cases member

/-- A request reaches the downloader. -/
theorem submit {request : Request Url} {threads : ℕ → EngineProgram Url Unit}
    (within : Within allowed pool)
    (keeps : ∀ i, Follows (submitting allowed) (fun _ => True) () (threads i))
    (own : allowed request.url) :
    Within allowed { pool with shared := pool.shared.submit request, threads := threads } where
  threads := keeps
  outstanding other member := by
    rcases List.mem_append.mp member with earlier | last
    · exact within.outstanding other earlier
    · rw [List.mem_singleton.mp last]
      exact own
  fed other member := by
    rcases List.mem_cons.mp member with same | earlier
    · cases same
      exact own
    · exact within.fed other earlier
  completed other error member := by
    rcases List.mem_cons.mp member with same | earlier
    · cases same
    · exact within.completed other error earlier

/-- Steps after which the requests, and what was fed and completed, are the same. -/
theorem frame (within : Within allowed pool)
    (keeps : Pool.Keeps (submitting allowed) (fun _ => ()) pool')
    (outstanding : pool'.shared.outstanding = pool.shared.outstanding)
    (fed : ∀ request, .fed request ∈ pool'.shared.log → .fed request ∈ pool.shared.log)
    (completed : ∀ request error, .completed request error ∈ pool'.shared.log →
      .completed request error ∈ pool.shared.log) : Within allowed pool' where
  threads := keeps
  outstanding request member := within.outstanding request (outstanding ▸ member)
  fed request member := within.fed request (fed request member)
  completed request error member := within.completed request error (completed request error member)

/-- **A completion** answers an allowed request. -/
theorem complete {n : ℕ} {request : Request Url} {error : Bool} {c : EngineProgram Url Unit}
    (within : Within allowed pool) (found : pool.shared.outstanding[n]? = some request)
    (follows : Follows (submitting allowed) (fun _ => True) () c) :
    Within allowed
      (Pool.spawn { pool with shared := e.completedState n request error pool.shared } c) where
  threads := Pool.Keeps.spawn_unit within.threads follows
  outstanding other member := within.outstanding other (List.mem_of_mem_eraseIdx member)
  fed other member := by
    rcases List.mem_cons.mp member with same | earlier
    · cases same
    · exact within.fed other earlier
  completed other error member := by
    rcases List.mem_cons.mp member with same | earlier
    · cases same
      exact within.outstanding _ (List.mem_of_getElem? found)
    · exact within.completed other error earlier

/-- **A thread's step** submits an allowed URL or none. -/
theorem thread {i : ℕ} {o : EngineOp Url} {next : EngineAnswer o → EngineProgram Url Unit}
    {answer : EngineAnswer o} {shared' : EngineState Url} (within : Within allowed pool)
    (thread : pool.threads i = .op o next)
    (performed : o.perform pool.shared = some (answer, shared')) :
    Within allowed { pool with
      shared := shared'
      threads := Function.update pool.threads i (next answer) } := by
  have keeps : ∀ shared : EngineState Url, Pool.Keeps (submitting allowed) (fun _ => ()) { pool with
      shared := shared
      threads := Function.update pool.threads i (next answer) } :=
    within.threads.step_unit thread trivial
  cases o with
  | feed url doc =>
    cases performed
    exact within.submit (keeps pool.shared) (within.threads.may thread)
  | currentTime | insertInflight | eraseInflight | writeDocument | readData =>
    cases performed
    exact within.frame (keeps _) rfl (fun _ => id) fun _ _ => id
  | wait result =>
    obtain rfl := perform_wait performed
    exact within.frame (keeps _) rfl (fun _ => id) fun _ _ => id
  | processing | process =>
    cases performed
    refine within.frame (keeps _) rfl (fun request member => ?_) fun request error member => ?_
    all_goals
      rcases List.mem_cons.mp member with same | earlier
      · cases same
      · exact earlier

/-- **A step** whose direct downloads restart stays within what is allowed. -/
theorem step {start : Str} {action : EngineAction Url} (within : Within allowed pool)
    (links : ∀ reply data href, e.Followed reply data href → allowed (e.requestUrl reply href))
    (first : allowed (e.swarm.ofString start)) (restarts : e.Restarts start pool action)
    (stepped : e.step pool action = some pool') : Within allowed pool' := by
  cases action with
  | download url =>
    cases stepped
    refine within.submit within.threads ?_
    rcases restarts with rfl | ⟨request, error, completed, rfl⟩
    · exact first
    · exact within.completed request error completed
  | complete n url code headers data error =>
    obtain ⟨request, found, rfl⟩ := e.step_complete stepped
    exact within.complete found (afterErase_submitting links _ _ _ _)
  | thread i =>
    obtain ⟨o, next, answer, shared', thread, performed, rfl⟩ := e.step_thread stepped
    exact within.thread thread performed
  | takeEffect n =>
    obtain ⟨doc, _, rfl⟩ := e.step_takeEffect stepped
    refine within.frame within.threads rfl (fun request member => ?_) fun request error member => ?_
    all_goals
      rcases List.mem_cons.mp member with same | earlier
      · cases same
      · exact earlier
  | tick now =>
    obtain ⟨_, rfl⟩ := e.step_tick stepped
    exact within.frame within.threads rfl (fun _ => id) fun _ _ => id

/-- A thread whose page-cache read fails stays within it too. -/
theorem stepFaulty {start : Str} {event : FaultyAction Url} (within : Within allowed pool)
    (links : ∀ reply data href, e.Followed reply data href → allowed (e.requestUrl reply href))
    (first : allowed (e.swarm.ofString start))
    (restarts : FaultyAction.Meets (e.Restarts start) pool event)
    (stepped : e.stepFaulty pool event = some pool') : Within allowed pool' := by
  cases event with
  | action action => exact within.step links first restarts stepped
  | failWrite n =>
    obtain ⟨-, rfl⟩ := e.step_failWrite stepped
    exact within.frame within.threads rfl (fun _ => id) fun _ _ => id
  | failRead i =>
    obtain ⟨key, next, thread, rfl⟩ := e.step_failRead stepped
    exact within.frame (within.threads.step_unit thread trivial pool.shared) rfl (fun _ => id)
      fun _ _ => id

/-- **A whole run** stays within what its start URL and its link loop stay within. -/
theorem of_run {start : Str} {pageCache : Str → Option DataPointer}
    {events : List (FaultyAction Url)}
    (links : ∀ reply data href, e.Followed reply data href → allowed (e.requestUrl reply href))
    (first : allowed (e.swarm.ofString start))
    (run : Run e.stepFaulty (FaultyAction.Meets (e.Restarts start)) (e.initial pageCache) events
      pool) : Within allowed pool :=
  run.invariant (Within allowed) (initial e allowed pageCache)
    fun _ _ _ within restarts stepped => within.stepFaulty links first restarts stepped

end Within

/-- **A followed link is on the filter's host**: the filter resolves it as the link loop does. -/
theorem host_of_followed {start : Str} {filter : Response Url → Url → Bool}
    (made : createDomainFilter e.swarm start = some filter) (registered : filter ∈ e.urlFilters)
    {reply : Response Url} {data href : Str} (followed : e.Followed reply data href) :
    e.swarm.host (e.requestUrl reply href) = e.swarm.host (e.swarm.ofString start) := by
  have accepted := List.all_eq_true.mp followed.ok filter registered
  simp only [createDomainFilter] at made
  split at made
  · cases made
  · cases made
    exact (beq_iff_eq.mp accepted).symm

/-- **Every URL handed to the downloader has the host of the start URL**, whatever the replies, the
redirects, the pages and the page cache are, and whatever storage operations fail. -/
theorem domain_confined {start : Str} {filter : Response Url → Url → Bool}
    (made : createDomainFilter e.swarm start = some filter) (registered : filter ∈ e.urlFilters)
    {pageCache : Str → Option DataPointer} {events : List (FaultyAction Url)}
    (run : Run e.stepFaulty (FaultyAction.Meets (e.Restarts start)) (e.initial pageCache) events
      pool) {request : Request Url}
    (fed : .fed request ∈ pool.shared.log) :
    e.swarm.host request.url = e.swarm.host (e.swarm.ofString start) := by
  have within : Within (fun url => e.swarm.host url = e.swarm.host (e.swarm.ofString start)) pool :=
    .of_run (fun _ _ _ followed => host_of_followed made registered followed) rfl run
  exact within.fed request fed

/-! ### A redirect out of the domain -/

namespace Redirected

def start : Str := "http://a/".toList

/-- The crawler of one host. -/
def crawler : EngineData Str :=
  { PlainUrl.crawler with urlFilters := (createDomainFilter PlainUrl.swarm start).toList }

def restarts (pool : EnginePool Str) : EngineAction Str → Bool
  | .download url => url == start || pool.shared.log.any fun
    | .completed request _ => request.url == url
    | _ => false
  | _ => true

theorem restarts_of_eval {pool : EnginePool Str} {action : EngineAction Str}
    (holds : restarts pool action = true) : crawler.Restarts start pool action := by
  cases action with
  | download url =>
    rcases Bool.or_eq_true_iff.mp holds with first | again
    · exact .inl (beq_iff_eq.mp first)
    · obtain ⟨event, member, same⟩ := List.any_eq_true.mp again
      cases event with
      | completed request error => exact .inr ⟨request, error, member, (beq_iff_eq.mp same).symm⟩
      | _ => cases same
  | _ => trivial

/-- The start URL redirects to another host, whose page links back; the page-cache read of the link
fails. A processor asks for the start URL once more. -/
def events : List (FaultyAction Str) :=
  [.action (.download start),
    .action (.complete 0 "http://c/".toList 200 [] "http://a/next".toList false)] ++
    List.replicate 6 (.action (.thread 0)) ++
    [.failRead 0, .action (.thread 0), .action (.download start)]

theorem runs : (exec crawler.stepFaulty (FaultyAction.meets restarts)
    (crawler.initial fun _ => none) events).isSome = true := rfl

theorem fed : .fed ⟨"http://a/next".toList, none, .link⟩ ∈ (endState runs).shared.log :=
  .tail _ (.head _)

end Redirected

theorem domain_confined_redirected :
    Redirected.crawler.swarm.host "http://a/next".toList =
      Redirected.crawler.swarm.host (Redirected.crawler.swarm.ofString Redirected.start) :=
  domain_confined rfl List.mem_cons_self
    (Run.of_endState (fun _ _ => FaultyAction.Meets.of_eval fun _ _ => Redirected.restarts_of_eval)
      Redirected.runs) Redirected.fed

end EngineData

end Wookie
