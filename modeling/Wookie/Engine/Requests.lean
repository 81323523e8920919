/-
**At most one request for a URL.**

Requests reach the downloader from `engine::download`, which looks at nothing, and from the link
loop, which looks at the in-flight map. The map keeps the link loop's requests apart from each other
(`Exclusive`), but `engine::download` makes no entry in it.

* `step_outstanding` — the outstanding requests grow only by the submission of the step.
* `one_request` — with distinct URLs passed to `engine::download`, there is at most one request for
  every URL in every run where the two kinds do not meet on a URL (`Apart`), whatever storage
  operations fail; the first submission where they do makes two.
-/

import Wookie.Engine.Inflight

namespace Wookie

open Library

variable {Url : Type}

namespace EngineData

variable (e : EngineData Url)

/-! ### Submissions -/

/-- The URL a step hands to the downloader, and who does. -/
def submits (pool : EnginePool Url) : EngineAction Url → Option (Url × Origin)
  | .download url => some (url, .direct)
  | .thread i =>
    match pool.threads i with
    | .op (.feed url _) _ => some (url, .link)
    | _ => none
  | _ => none

/-- The URLs passed to `engine::download`. -/
def downloads (events : List (FaultyAction Url)) : List Str :=
  events.filterMap fun
    | .action (.download url) => some (e.swarm.toString url)
    | _ => none

/-- A request of `engine::download` for the key. -/
def directRequests (key : Str) (request : Request Url) : Bool :=
  request.origin == .direct && e.requests key request

/-- No URL has two outstanding requests. -/
def OneRequest (pool : EnginePool Url) : Prop :=
  ∀ key, pool.shared.outstanding.countP (e.requests key) ≤ 1

/-- **The condition on a step**: a URL is not submitted while a request of the other kind is
outstanding for it, and an answer to `engine::download` erases no entry. -/
def Apart (pool : EnginePool Url) (action : EngineAction Url) : Prop :=
  (∀ key, e.Separate key pool action) ∧
  ∀ url origin, submits pool action = some (url, origin) → ∀ request ∈ pool.shared.outstanding,
    request.origin ≠ origin → e.requests (e.swarm.toString url) request = false

/-- The condition, evaluated. -/
def apart (pool : EnginePool Url) (action : EngineAction Url) : Bool :=
  e.separate pool action &&
  match submits pool action with
  | some (url, origin) => pool.shared.outstanding.all fun request =>
      request.origin == origin || !e.requests (e.swarm.toString url) request
  | none => true

variable {e} {key : Str} {pool pool' : EnginePool Url} {action : EngineAction Url}

theorem apart_of_eval (holds : e.apart pool action = true) : e.Apart pool action := by
  obtain ⟨separate, others⟩ := Bool.and_eq_true_iff.mp holds
  refine ⟨fun _ => separate_of_eval separate, fun url origin submitted => ?_⟩
  intro request member different
  simp only [submitted, List.all_eq_true] at others
  simpa [different] using others request member

/-- **Only a submission adds a request.** -/
theorem step_outstanding (stepped : e.step pool action = some pool') :
    (∃ url origin doc, submits pool action = some (url, origin) ∧
      pool'.shared.outstanding = pool.shared.outstanding ++ [⟨url, doc, origin⟩]) ∨
    submits pool action = none ∧
      pool'.shared.outstanding.Sublist pool.shared.outstanding := by
  cases action with
  | download url =>
    cases stepped
    exact Or.inl ⟨url, .direct, none, rfl, rfl⟩
  | complete n url code headers data error =>
    obtain ⟨request, _, rfl⟩ := e.step_complete stepped
    exact Or.inr ⟨rfl, List.eraseIdx_sublist _ _⟩
  | thread i =>
    obtain ⟨o, next, answer, shared', thread, performed, rfl⟩ := e.step_thread stepped
    cases o with
    | feed url doc =>
      cases performed
      exact Or.inl ⟨url, .link, doc, by simp [submits, thread], rfl⟩
    | wait result =>
      obtain rfl := perform_wait performed
      exact Or.inr ⟨by simp [submits, thread], .refl _⟩
    | _ =>
      cases performed
      exact Or.inr ⟨by simp [submits, thread], .refl _⟩
  | takeEffect n =>
    obtain ⟨doc, _, rfl⟩ := e.step_takeEffect stepped
    exact Or.inr ⟨rfl, .refl _⟩
  | tick now =>
    obtain ⟨_, rfl⟩ := e.step_tick stepped
    exact Or.inr ⟨rfl, .refl _⟩

/-- A submission of `engine::download` is a call of it. -/
theorem submits_direct {url : Url} (submitted : submits pool action = some (url, .direct)) :
    action = .download url := by
  cases action with
  | download other =>
    cases submitted
    rfl
  | thread i =>
    simp only [submits] at submitted
    split at submitted <;> cases submitted
  | _ => cases submitted

theorem count_requests (outstanding : List (Request Url)) :
    outstanding.countP (e.requests key) =
      outstanding.countP (e.linkRequests key) + outstanding.countP (e.directRequests key) := by
  induction outstanding with
  | nil => rfl
  | cons request rest ih =>
    obtain ⟨url, doc, origin⟩ := request
    rw [List.countP_cons, List.countP_cons, List.countP_cons, ih]
    cases origin with
    | direct =>
      simp only [linkRequests, directRequests, requests]
      simp [Nat.add_assoc]
    | link =>
      simp only [linkRequests, directRequests, requests]
      simp [Nat.add_right_comm]

/-! ### Runs in which the two kinds keep apart -/

/-- **What such a run keeps for a key**: the requests of `engine::download` were called for, and
there are none beside a request of the link loop. -/
structure KeptApart (e : EngineData Url) (key : Str) (events : List (FaultyAction Url))
    (pool : EnginePool Url) : Prop where
  called : pool.shared.outstanding.countP (e.directRequests key) ≤ (e.downloads events).count key
  disjoint : pool.shared.outstanding.countP (e.directRequests key) = 0 ∨
    pool.shared.outstanding.countP (e.linkRequests key) = 0

/-- A submission is counted by its own kind, for its own URL. -/
theorem count_submitted {outstanding : List (Request Url)} {url : Url} {doc : Option Document}
    {origin : Origin} (kind : Origin) :
    (outstanding ++ [(⟨url, doc, origin⟩ : Request Url)]).countP
        (fun request => request.origin == kind && e.requests key request) =
      outstanding.countP (fun request => request.origin == kind && e.requests key request) +
        if origin = kind ∧ e.swarm.toString url = key then 1 else 0 := by
  rw [List.countP_append, List.countP_singleton]
  simp only [requests, Bool.and_eq_true, beq_iff_eq]

/-- No request of the other kind is outstanding for a URL that is submitted. -/
theorem Apart.none_other {url : Url} {origin other : Origin} (apart : e.Apart pool action)
    (submitted : submits pool action = some (url, origin)) (differs : other ≠ origin) :
    pool.shared.outstanding.countP
      (fun request => request.origin == other &&
        e.requests (e.swarm.toString url) request) = 0 := by
  refine List.countP_eq_zero.mpr fun request member counted => ?_
  obtain ⟨kind, own⟩ := Bool.and_eq_true_iff.mp counted
  have same : request.origin = other := eq_of_beq kind
  have foreign := apart.2 url origin submitted request member fun equal => differs (same ▸ equal)
  rw [own] at foreign
  cases foreign

theorem downloads_concat (events : List (FaultyAction Url)) (event : FaultyAction Url) :
    (e.downloads (events ++ [event])).count key =
      (e.downloads events).count key + (e.downloads [event]).count key := by
  simp only [downloads, List.filterMap_append, List.count_append]

theorem KeptApart.step {events : List (FaultyAction Url)} (kept : KeptApart e key events pool)
    (apart : e.Apart pool action) (stepped : e.step pool action = some pool') :
    KeptApart e key (events ++ [.action action]) pool' := by
  have calls : (e.downloads (events ++ [.action action])).count key = _ :=
    downloads_concat events _
  have called := kept.called
  rcases step_outstanding stepped with ⟨url, origin, doc, submitted, grown⟩ | ⟨_, shrunk⟩
  · have direct : pool'.shared.outstanding.countP (e.directRequests key) =
        pool.shared.outstanding.countP (e.directRequests key) +
          if origin = .direct ∧ e.swarm.toString url = key then 1 else 0 := by
      rw [grown]
      exact count_submitted .direct
    have linked : pool'.shared.outstanding.countP (e.linkRequests key) =
        pool.shared.outstanding.countP (e.linkRequests key) +
          if origin = .link ∧ e.swarm.toString url = key then 1 else 0 := by
      rw [grown]
      exact count_submitted .link
    by_cases own : e.swarm.toString url = key
    · subst own
      cases origin with
      | direct =>
        have none_linked : pool.shared.outstanding.countP
            (e.linkRequests (e.swarm.toString url)) = 0 := apart.none_other submitted (by decide)
        rw [if_pos ⟨rfl, rfl⟩] at direct
        rw [if_neg (fun both => by cases both.1), none_linked] at linked
        cases submits_direct submitted
        have this_call : (e.downloads [.action (.download url)]).count (e.swarm.toString url) = 1 :=
          List.count_singleton_self
        exact ⟨by omega, Or.inr linked⟩
      | link =>
        have none_direct : pool.shared.outstanding.countP
            (e.directRequests (e.swarm.toString url)) = 0 := apart.none_other submitted (by decide)
        rw [if_neg (fun both => by cases both.1), none_direct] at direct
        exact ⟨by omega, Or.inl direct⟩
    · -- the submission is another key's
      rw [if_neg fun both => own both.2, Nat.add_zero] at direct linked
      refine ⟨by omega, ?_⟩
      rw [direct, linked]
      exact kept.disjoint
  · have direct : pool'.shared.outstanding.countP (e.directRequests key) ≤
        pool.shared.outstanding.countP (e.directRequests key) := shrunk.countP_le
    have linked : pool'.shared.outstanding.countP (e.linkRequests key) ≤
        pool.shared.outstanding.countP (e.linkRequests key) := shrunk.countP_le
    refine ⟨by omega, ?_⟩
    rcases kept.disjoint with none_direct | none_linked
    · exact Or.inl (by omega)
    · exact Or.inr (by omega)

/-- A storage operation that fails adds no request. -/
theorem KeptApart.stepFaulty {events : List (FaultyAction Url)} {event : FaultyAction Url}
    (kept : KeptApart e key events pool) (apart : FaultyAction.Meets e.Apart pool event)
    (stepped : e.stepFaulty pool event = some pool') :
    KeptApart e key (events ++ [event]) pool' := by
  have calls : (e.downloads (events ++ [event])).count key = _ := downloads_concat events event
  cases event with
  | action action => exact kept.step apart stepped
  | failWrite n =>
    obtain ⟨-, rfl⟩ := e.step_failWrite stepped
    exact ⟨kept.called.trans (by omega), kept.disjoint⟩
  | failRead i =>
    obtain ⟨other, next, -, rfl⟩ := e.step_failRead stepped
    exact ⟨kept.called.trans (by omega), kept.disjoint⟩

theorem KeptApart.of_run {pageCache : Str → Option DataPointer} {events : List (FaultyAction Url)}
    (run : Run e.stepFaulty (FaultyAction.Meets e.Apart) (e.initial pageCache) events pool) :
    KeptApart e key events pool :=
  run.history (KeptApart e key) ⟨Nat.le_refl 0, Or.inl rfl⟩
    fun _ _ _ _ kept apart stepped => kept.stepFaulty apart stepped

theorem oneRequest_of_run {pageCache : Str → Option DataPointer} {events : List (FaultyAction Url)}
    (run : Run e.stepFaulty (FaultyAction.Meets e.Apart) (e.initial pageCache) events pool)
    (distinct : (e.downloads events).Nodup) : e.OneRequest pool := by
  intro key
  obtain ⟨phases, exclusive⟩ := Exclusive.of_faulty
    (run.mono fun _ _ => FaultyAction.Meets.mono fun _ _ apart => apart.1 key)
  have kept : KeptApart e key events pool := KeptApart.of_run run
  have linked := exclusive.link_alone
  have direct := kept.called.trans (List.nodup_iff_count_le_one.mp distinct key)
  rw [count_requests]
  rcases kept.disjoint with none_direct | none_linked
  · omega
  · omega

/-- A submission beside a request for the same URL makes two. -/
theorem not_oneRequest_of_submits (stepped : e.step pool action = some pool') {url : Url}
    {origin : Origin} (submitted : submits pool action = some (url, origin)) {request : Request Url}
    (member : request ∈ pool.shared.outstanding)
    (own : e.requests (e.swarm.toString url) request = true) : ¬ e.OneRequest pool' := by
  intro one
  have one := one (e.swarm.toString url)
  have before : 0 < pool.shared.outstanding.countP (e.requests (e.swarm.toString url)) :=
    List.countP_pos_iff.mpr ⟨request, member, own⟩
  rcases step_outstanding stepped with ⟨url', origin', doc, submitted', grown⟩ | ⟨nothing, _⟩
  · cases submitted.symm.trans submitted'
    rw [grown] at one
    simp only [List.countP_append, List.countP_singleton, requests, beq_self_eq_true, if_true]
      at one before
    omega
  · cases submitted.symm.trans nothing

/-- **At most one request is outstanding for every URL**, if `engine::download` is called on
distinct URLs and its requests and the link loop's do not meet on a URL, whatever storage operations
fail. Where no request of `engine::download` erases an entry, the first submission that meets a
request breaks it. -/
theorem one_request (e : EngineData Url) (pageCache : Str → Option DataPointer)
    (events : List (FaultyAction Url)) (pool : EnginePool Url)
    (run : Run e.stepFaulty (FaultyAction.Meets e.Apart) (e.initial pageCache) events pool)
    (distinct : (e.downloads events).Nodup) :
    e.OneRequest pool ∧
    ∀ event pool',
      FaultyAction.Meets (fun pool action => ∀ key, e.Separate key pool action) pool event →
      e.stepFaulty pool event = some pool' → (e.downloads (events ++ [event])).Nodup →
      (e.OneRequest pool' ↔ FaultyAction.Meets e.Apart pool event) := by
  refine ⟨oneRequest_of_run run distinct, fun event pool' separate stepped distinct' => ?_⟩
  constructor
  · intro one
    cases event with
    | action action =>
      refine ⟨separate, fun url origin submitted request member _ => ?_⟩
      by_contra own
      exact not_oneRequest_of_submits stepped submitted member (by simpa using own) one
    | failWrite | failRead => trivial
  · exact fun apart => oneRequest_of_run (run.snoc apart stepped) distinct'

/-! ### Two pages that link to one another -/

namespace TwoPages

def first : Str := "http://a/".toList

def second : Str := "http://b/".toList

/-- `download(a)`, which links to `b`; the link is followed up to the submission. The page-cache
read fails. -/
def followed : List (FaultyAction Str) :=
  [.action (.download first), .action (.complete 0 first 200 [] second false)] ++
    List.replicate 5 (.action (.thread 0)) ++ [.failRead 0, .action (.thread 0)]

theorem runs : (exec PlainUrl.crawler.stepFaulty (FaultyAction.meets PlainUrl.crawler.apart)
    (PlainUrl.crawler.initial fun _ => none) followed).isSome = true := rfl

/-- `b` is passed to `engine::download` too, before its link is found. -/
def followedTwice : List (FaultyAction Str) :=
  [.action (.download first), .action (.download second),
    .action (.complete 0 first 200 [] second false)] ++ List.replicate 7 (.action (.thread 0))

theorem runs_twice : (exec PlainUrl.crawler.stepFaulty (fun _ _ => true)
    (PlainUrl.crawler.initial fun _ => none) followedTwice).isSome = true := rfl

end TwoPages

theorem one_request_twoPages : PlainUrl.crawler.OneRequest (endState TwoPages.runs) :=
  (one_request _ _ _ _
    (Run.of_endState (fun _ _ => FaultyAction.Meets.of_eval fun _ _ => apart_of_eval) TwoPages.runs)
    (by decide)).1

/-- `engine::download` is called on two pages, of which one links to the other. -/
theorem two_requests :
    ¬ ∀ (e : EngineData Str) (pageCache : Str → Option DataPointer)
      (events : List (FaultyAction Str)) (pool : EnginePool Str),
      Run e.stepFaulty AnyStep (e.initial pageCache) events pool → (e.downloads events).Nodup →
      e.OneRequest pool := by
  intro one
  have run : Run PlainUrl.crawler.stepFaulty AnyStep (PlainUrl.crawler.initial fun _ => none)
      TwoPages.followedTwice (endState TwoPages.runs_twice) :=
    Run.of_endState (fun _ _ _ => trivial) TwoPages.runs_twice
  have two : (endState TwoPages.runs_twice).shared.outstanding.countP
      (PlainUrl.crawler.requests TwoPages.second) = 2 := rfl
  have most := one _ _ _ _ run (by decide) TwoPages.second
  omega

end EngineData

end Wookie
