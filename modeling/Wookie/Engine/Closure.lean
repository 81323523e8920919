/-
**A crawl that comes to rest is complete.**

A link is looked up in the in-flight map by the thread that found it. A new entry is owed a request,
an old one has been owed one; a request is answered, or the copy that makes it needless is of a page
announced in this generation. So no link is lost, whatever the threads, the replies and the storage
do.

* `Pages` — every answered request has its page announced, or a thread that has still to do so, and
  every request of the link loop is for a followed link of an announced page.
* `Handled` — a key with an answered request, an announced page, or a copy of this generation.
* `Attended.step` — **a key with a request, a debt or an outcome never loses it.**
* `Covering` — every key in flight and every followed link of an announced page is attended to, or
  still to be looked up.
* `crawl_complete` — **once no thread is at work and no request is outstanding, every submitted URL
  and every followed link of every announced page has an outcome.**
-/

import Wookie.Engine.Copies

namespace Wookie

open Library

variable {Url : Type}

namespace EngineData

variable (e : EngineData Url)

/-! ### Requests and pages -/

/-- A link of an announced page leads to this URL. -/
def Linked (log : List (EngineEvent Url)) (url : Url) : Prop :=
  ∃ reply data, .processing reply data ∈ log ∧ url ∈ e.targets reply data

/-- **What requests and pages have to do with each other.** -/
structure Pages (c : Crawl Url) : Prop where
  answered : ∀ request, .completed request false ∈ c.shared.log →
    (∃ reply data, .processing reply data ∈ c.shared.log ∧ reply.requestUrl = request.url) ∨
      ∃ i reply data, (c.duties i).page = some (reply, data) ∧ reply.requestUrl = request.url
  fed : ∀ request, .fed request ∈ c.shared.log → request ∈ c.shared.outstanding ∨
    ∃ error, .completed request error ∈ c.shared.log
  targets : ∀ i, ∀ url ∈ (c.duties i).targets, e.Linked c.shared.log url
  linked : ∀ request, .fed request ∈ c.shared.log → request.origin = .link →
    e.Linked c.shared.log request.url

variable {e} {pageCache : Str → Option DataPointer} {c c' : Crawl Url}
  {event : FaultyAction Url} {log log' : List (EngineEvent Url)} {key : Str}

theorem Linked.mono {url : Url} (linked : e.Linked log url) (grows : log ⊆ log') :
    e.Linked log' url := by
  obtain ⟨reply, data, member, own⟩ := linked
  exact ⟨reply, data, grows member, own⟩

namespace Pages

theorem initial (pageCache : Str → Option DataPointer) :
    Pages e ⟨(e.initial pageCache).shared, fun _ => .none⟩ where
  answered _ member := nomatch member
  fed _ member := nomatch member
  targets _ _ member := member.elim
  linked _ member := nomatch member

/-- A request reaches the downloader. -/
theorem submit (pages : Pages e c) (request : Request Url) (duties : ℕ → Duty Url)
    (same : ∀ i, (duties i).page = (c.duties i).page ∧ (duties i).targets = (c.duties i).targets)
    (own : request.origin = .link → e.Linked c.shared.log request.url) :
    Pages e ⟨c.shared.submit request, duties⟩ := by
  have grows : c.shared.log ⊆ (c.shared.submit request).log := List.subset_cons_self _ _
  refine ⟨fun other member => ?_, fun other member => ?_, fun i url target => ?_,
    fun other member link => ?_⟩
  · have before : .completed other false ∈ c.shared.log :=
      (List.mem_cons.mp member).resolve_left fun same => nomatch same
    rcases pages.answered other before with
      ⟨reply, data, announced, url⟩ | ⟨i, reply, data, page, url⟩
    · exact .inl ⟨reply, data, grows announced, url⟩
    · exact .inr ⟨i, reply, data, (same i).1.trans page, url⟩
  · rcases List.mem_cons.mp member with new | before
    · cases new
      exact .inl (List.mem_append_right _ List.mem_cons_self)
    · rcases pages.fed other before with waiting | ⟨error, done⟩
      · exact .inl (List.mem_append_left _ waiting)
      · exact .inr ⟨error, grows done⟩
  · rw [(same i).2] at target
    exact (pages.targets i url target).mono grows
  · rcases List.mem_cons.mp member with new | before
    · cases new
      exact (own link).mono grows
    · exact (pages.linked other before link).mono grows

/-- No request is made or answered, and no page announced. -/
theorem frame (pages : Pages e c) (outstanding : c'.shared.outstanding = c.shared.outstanding)
    (grows : c.shared.log ⊆ c'.shared.log)
    (fed : ∀ request, .fed request ∈ c'.shared.log → .fed request ∈ c.shared.log)
    (completed : ∀ request error, .completed request error ∈ c'.shared.log →
      .completed request error ∈ c.shared.log)
    (same : ∀ i, (c'.duties i).page = (c.duties i).page ∧
      (c'.duties i).targets = (c.duties i).targets) : Pages e c' where
  answered request member := by
    rcases pages.answered request (completed request false member) with
      ⟨reply, data, announced, url⟩ | ⟨i, reply, data, page, url⟩
    · exact .inl ⟨reply, data, grows announced, url⟩
    · exact .inr ⟨i, reply, data, (same i).1.trans page, url⟩
  fed request member := by
    rw [outstanding]
    rcases pages.fed request (fed request member) with waiting | ⟨error, done⟩
    · exact .inl waiting
    · exact .inr ⟨error, grows done⟩
  targets i url target := by
    rw [(same i).2] at target
    exact (pages.targets i url target).mono grows
  linked request member link := (pages.linked request (fed request member) link).mono grows

/-- A thread's part in such a move leaves page and targets alone. -/
theorem same_moved (shared : EngineState Url) {i : ℕ} {φ : Duty Url}
    (page : φ.page = (c.duties i).page) (targets : φ.targets = (c.duties i).targets) (j : ℕ) :
    ((c.moved shared i φ).duties j).page = (c.duties j).page ∧
      ((c.moved shared i φ).duties j).targets = (c.duties j).targets := by
  by_cases same : j = i
  · subst same
    rw [Crawl.moved_self]
    exact ⟨page, targets⟩
  · rw [Crawl.moved_other same]
    exact ⟨rfl, rfl⟩

/-- **A request is answered**: without an error the thread has its page to announce. -/
theorem complete (pages : Pages e c) {n i : ℕ} {request : Request Url} (url : Url) (code : ℕ)
    (headers : List (Str × Str)) (data : Str) (error : Bool) (oldDoc : Document)
    (found : c.shared.outstanding[n]? = some request) (fresh : c.duties i = .none) :
    Pages e (c.moved (e.completedState n request error c.shared) i
      (entryDuty ⟨request.url, url, code, headers⟩ data error oldDoc)) := by
  have grows : c.shared.log ⊆ .completed request error :: c.shared.log := List.subset_cons_self _ _
  refine ⟨fun other member => ?_, fun other member => ?_, ?_, fun other member link => ?_⟩
  · rcases List.mem_cons.mp member with new | before
    · cases new
      exact .inr ⟨i, _, _, by rw [Crawl.moved_self]; rfl, rfl⟩
    · rcases pages.answered other before with ⟨reply, page, announced, own⟩ |
        ⟨j, reply, page, has, own⟩
      · exact .inl ⟨reply, page, grows announced, own⟩
      · have busy : j ≠ i := by
          rintro rfl
          rw [fresh] at has
          cases has
        refine .inr ⟨j, reply, page, ?_, own⟩
        rwa [Crawl.moved_other busy]
  · have before : .fed other ∈ c.shared.log :=
      (List.mem_cons.mp member).resolve_left fun same => nomatch same
    rcases pages.fed other before with waiting | ⟨failed, done⟩
    · obtain ⟨place, at_place⟩ := List.getElem?_of_mem waiting
      by_cases same : place = n
      · subst same
        cases found.symm.trans at_place
        exact .inr ⟨error, List.mem_cons_self⟩
      · exact .inl (List.mem_eraseIdx_iff_getElem?.mpr ⟨place, same, at_place⟩)
    · exact .inr ⟨failed, grows done⟩
  · refine Crawl.everyone_moved (fun φ => ∀ url ∈ φ.targets, e.Linked _ url) ?_ ?_
    · exact fun j url target => (pages.targets j url target).mono grows
    · intro url target
      unfold entryDuty at target
      split at target
      · exact target.elim
      · exact target.elim
  · have before : .fed other ∈ c.shared.log :=
      (List.mem_cons.mp member).resolve_left fun same => nomatch same
    exact (pages.linked other before link).mono grows

/-- **A page is announced**: it was the thread's to announce, and its links may be submitted. -/
theorem announce (pages : Pages e c) {i : ℕ} {reply : Response Url} {data : Str}
    (page : (c.duties i).page = some (reply, data)) :
    Pages e (c.moved { c.shared with log := .processing reply data :: c.shared.log } i
      ((c.duties i).announce (e.work reply data))) := by
  have grows : c.shared.log ⊆ .processing reply data :: c.shared.log := List.subset_cons_self _ _
  refine ⟨fun other member => ?_, fun other member => ?_, ?_, fun other member link => ?_⟩
  · have before : .completed other false ∈ c.shared.log :=
      (List.mem_cons.mp member).resolve_left fun same => nomatch same
    rcases pages.answered other before with ⟨reply, data, announced, own⟩ |
      ⟨j, reply', data', has, own⟩
    · exact .inl ⟨reply, data, grows announced, own⟩
    · by_cases same : j = i
      · subst same
        cases page.symm.trans has
        exact .inl ⟨reply, data, List.mem_cons_self, own⟩
      · refine .inr ⟨j, reply', data', ?_, own⟩
        rwa [Crawl.moved_other same]
  · have before : .fed other ∈ c.shared.log :=
      (List.mem_cons.mp member).resolve_left fun same => nomatch same
    rcases pages.fed other before with waiting | ⟨error, done⟩
    · exact .inl waiting
    · exact .inr ⟨error, grows done⟩
  · refine Crawl.everyone_moved (fun φ => ∀ url ∈ φ.targets, e.Linked _ url) ?_ ?_
    · exact fun j url target => (pages.targets j url target).mono grows
    · rintro url (before | own)
      · exact (pages.targets i url before).mono grows
      · exact ⟨reply, data, List.mem_cons_self, own⟩
  · have before : .fed other ∈ c.shared.log :=
      (List.mem_cons.mp member).resolve_left fun same => nomatch same
    exact (pages.linked other before link).mono grows

theorem step (pages : Pages e c) (move : e.Move event c c') : Pages e c' := by
  cases move with
  | aside _ now => exact ⟨pages.answered, pages.fed, pages.targets, pages.linked⟩
  | serve _ _ i functor reply data type own =>
    exact pages.frame rfl (List.subset_cons_self _ _)
      (fun _ member => (List.mem_cons.mp member).resolve_left fun same => nomatch same)
      (fun _ _ member => (List.mem_cons.mp member).resolve_left fun same => nomatch same)
      (same_moved _ rfl rfl)
  | download _ url =>
    exact pages.submit ⟨url, none, .direct⟩ _ (fun _ => ⟨rfl, rfl⟩) fun link => nomatch link
  | complete _ n i request url code headers data error oldDoc found fresh taken =>
    exact pages.complete url code headers data error oldDoc found fresh
  | announce _ _ i reply data page => exact pages.announce page
  | submit _ _ i url doc target =>
    exact pages.submit ⟨url, doc, .link⟩ _
      (same_moved c.shared rfl rfl) fun _ => pages.targets i url target
  | store _ _ n doc found =>
    exact pages.frame rfl (List.subset_cons_self _ _)
      (fun _ member => (List.mem_cons.mp member).resolve_left fun same => nomatch same)
      (fun _ _ member => (List.mem_cons.mp member).resolve_left fun same => nomatch same)
      fun _ => ⟨rfl, rfl⟩
  | failWrite _ n => exact ⟨pages.answered, pages.fed, pages.targets, pages.linked⟩
  | lookUp | found | write | waited =>
    exact pages.frame rfl (List.Subset.refl _) (fun _ => id) (fun _ _ => id) (same_moved _ rfl rfl)

end Pages

/-! ### Keys with an outcome -/

/-- **The key has an outcome**: a request for it was answered, a page was announced that has a copy
under it, or there was a copy of this generation to begin with. -/
def Handled (e : EngineData Url) (pageCache : Str → Option DataPointer)
    (log : List (EngineEvent Url)) (key : Str) : Prop :=
  (∃ request error, .completed request error ∈ log ∧ e.swarm.toString request.url = key) ∨
    (∃ data, e.Announced log (key, data)) ∨ e.requestsAfter (pageCache key) = false

/-- **The key is seen to**: a request for it is outstanding, a thread owes it one, or it has an
outcome. -/
def Attended (e : EngineData Url) (pageCache : Str → Option DataPointer) (c : Crawl Url)
    (key : Str) : Prop :=
  (∃ request ∈ c.shared.outstanding, e.swarm.toString request.url = key) ∨
    (∃ i, key ∈ (c.duties i).owes) ∨ Handled e pageCache c.shared.log key

theorem Handled.mono (handled : Handled e pageCache log key) (grows : log ⊆ log') :
    Handled e pageCache log' key := by
  rcases handled with ⟨request, error, done, own⟩ | ⟨data, announced⟩ | fresh
  · exact .inl ⟨request, error, grows done, own⟩
  · exact .inr (.inl ⟨data, announced.mono grows⟩)
  · exact .inr (.inr fresh)

namespace Attended

/-- No request is answered, and no debt paid. -/
theorem frame (attended : Attended e pageCache c key)
    (outstanding : c.shared.outstanding ⊆ c'.shared.outstanding)
    (grows : c.shared.log ⊆ c'.shared.log)
    (owes : (∃ i, key ∈ (c.duties i).owes) → ∃ i, key ∈ (c'.duties i).owes) :
    Attended e pageCache c' key := by
  rcases attended with ⟨request, waiting, own⟩ | owed | handled
  · exact .inl ⟨request, outstanding waiting, own⟩
  · exact .inr (.inl (owes owed))
  · exact .inr (.inr (handled.mono grows))

/-- A thread's part in such a move. -/
theorem moved (attended : Attended e pageCache c key) {shared : EngineState Url} {i : ℕ}
    {φ : Duty Url} (outstanding : c.shared.outstanding ⊆ shared.outstanding)
    (grows : c.shared.log ⊆ shared.log) (owes : key ∈ (c.duties i).owes → key ∈ φ.owes) :
    Attended e pageCache (c.moved shared i φ) key :=
  attended.frame outstanding grows fun owed => Crawl.someone_moved (key ∈ ·.owes) owed owes

/-- **A copy of this generation is found**: it was there to begin with, or a page was announced. -/
theorem found (copied : Copied e pageCache c)
    (ends : e.requestsAfter (c.shared.pageCache key) = false) :
    Handled e pageCache c.shared.log key := by
  rcases copied.cached key with same | ⟨doc, member, own, -⟩
  · rw [same] at ends
    exact .inr (.inr ends)
  · exact .inr (.inl ⟨doc.data, own ▸ (copied.writes doc member).1⟩)

/-- **Every move** keeps the key seen to. -/
theorem step (attended : Attended e pageCache c key) (copied : Copied e pageCache c)
    (move : e.Move event c c') : Attended e pageCache c' key := by
  cases move with
  | aside _ now => exact attended
  | serve _ _ i functor reply data type own =>
    exact attended.moved (List.Subset.refl _) (List.subset_cons_self _ _) id
  | download _ url =>
    exact attended.frame (List.subset_append_left _ _) (List.subset_cons_self _ _) id
  | complete _ n i request url code headers data error oldDoc found fresh taken =>
    rcases attended with ⟨waiting, member, own⟩ | owed | handled
    · obtain ⟨place, at_place⟩ := List.getElem?_of_mem member
      by_cases same : place = n
      · -- the request for the key is the one answered
        subst same
        cases found.symm.trans at_place
        exact .inr (.inr (.inl ⟨request, error, List.mem_cons_self, own⟩))
      · exact .inl ⟨waiting, List.mem_eraseIdx_iff_getElem?.mpr ⟨place, same, at_place⟩, own⟩
    · refine .inr (.inl (Crawl.someone_moved (key ∈ ·.owes) owed fun own => ?_))
      rw [fresh] at own
      exact own.elim
    · exact .inr (.inr (handled.mono (List.subset_cons_self _ _)))
  | announce _ _ i reply data page =>
    exact attended.moved (List.Subset.refl _) (List.subset_cons_self _ _) id
  | lookUp _ _ i other doc =>
    exact attended.moved (List.Subset.refl _) (List.Subset.refl _) (Set.mem_union_left _ ·)
  | found _ _ i other ends =>
    by_cases same : key = other
    · subst same
      exact .inr (.inr (found (c := c) copied ends))
    · exact attended.moved (List.Subset.refl _) (List.Subset.refl _) fun owed => ⟨owed, same⟩
  | submit _ _ i url doc target =>
    by_cases same : key = e.swarm.toString url
    · exact .inl ⟨⟨url, doc, .link⟩, List.mem_append_right _ List.mem_cons_self, same.symm⟩
    · exact attended.moved (List.subset_append_left _ _) (List.subset_cons_self _ _)
        fun owed => ⟨owed, same⟩
  | store _ _ n doc found =>
    exact attended.frame (List.Subset.refl _) (List.subset_cons_self _ _) id
  | failWrite _ n => exact attended
  | write | waited => exact attended.moved (List.Subset.refl _) (List.Subset.refl _) id

end Attended

/-! ### Links -/

/-- **Every key in flight is seen to, and every followed link** of an announced page, or a thread
has still to look it up. -/
structure Covering (e : EngineData Url) (pageCache : Str → Option DataPointer) (key : Str)
    (c : Crawl Url) : Prop where
  inflight : key ∈ c.shared.inflight → Attended e pageCache c key
  linked : ∀ reply data, .processing reply data ∈ c.shared.log → key ∈ e.linkKeys reply data →
    Attended e pageCache c key ∨ ∃ i, key ∈ (c.duties i).links

namespace Covering

theorem initial (pageCache : Str → Option DataPointer) (key : Str) :
    Covering e pageCache key ⟨(e.initial pageCache).shared, fun _ => .none⟩ where
  inflight present := absurd present Std.TreeMap.not_mem_emptyc
  linked _ _ member := nomatch member

/-- No page is announced, and no key looked up. -/
theorem frame (covering : Covering e pageCache key c)
    (attend : Attended e pageCache c key → Attended e pageCache c' key)
    (inflight : key ∈ c'.shared.inflight → key ∈ c.shared.inflight)
    (processing : ∀ reply data, .processing reply data ∈ c'.shared.log →
      .processing reply data ∈ c.shared.log)
    (links : (∃ i, key ∈ (c.duties i).links) → ∃ i, key ∈ (c'.duties i).links) :
    Covering e pageCache key c' where
  inflight present := attend (covering.inflight (inflight present))
  linked reply data announced own :=
    (covering.linked reply data (processing reply data announced) own).imp attend links

/-- **A key is looked up**: a new entry is owed a request, an old one is seen to. -/
theorem lookUp (covering : Covering e pageCache key c) (i : ℕ) (other : Str) (doc : Document)
    (attend : Attended e pageCache c key → Attended e pageCache
      (c.moved { c.shared with inflight := c.shared.inflight.insertIfNew other doc } i
        ((c.duties i).lookUp other (!c.shared.inflight.contains other))) key) :
    Covering e pageCache key
      (c.moved { c.shared with inflight := c.shared.inflight.insertIfNew other doc } i
        ((c.duties i).lookUp other (!c.shared.inflight.contains other))) := by
  have own_attended : other = key → Attended e pageCache
      (c.moved { c.shared with inflight := c.shared.inflight.insertIfNew other doc } i
        ((c.duties i).lookUp other (!c.shared.inflight.contains other))) key := by
    rintro rfl
    by_cases present : other ∈ c.shared.inflight
    · exact attend (covering.inflight present)
    · have new : (!c.shared.inflight.contains other) = true := by
        rw [Bool.not_eq_true', ← Bool.not_eq_true, Std.TreeMap.contains_iff_mem]
        exact present
      exact .inr (.inl (Crawl.someone_self (other ∈ ·.owes) (Set.mem_union_right _ ⟨new, rfl⟩)))
  refine ⟨fun present => ?_, fun reply data announced own => ?_⟩
  · rcases Std.TreeMap.mem_insertIfNew.mp present with same | before
    · exact own_attended (Std.LawfulEqCmp.eq_of_compare same)
    · exact attend (covering.inflight before)
  · by_cases same : other = key
    · exact .inl (own_attended same)
    · refine (covering.linked reply data announced own).imp attend fun left => ?_
      exact Crawl.someone_moved (key ∈ ·.links) left fun before => ⟨before, Ne.symm same⟩

theorem step (covering : Covering e pageCache key c) (copied : Copied e pageCache c)
    (move : e.Move event c c') : Covering e pageCache key c' := by
  have attend : Attended e pageCache c key → Attended e pageCache c' key :=
    fun attended => attended.step copied move
  cases move with
  | aside _ now => exact ⟨covering.inflight, covering.linked⟩
  | serve _ _ i functor reply data type own =>
    exact covering.frame attend id
      (fun _ _ member => (List.mem_cons.mp member).resolve_left fun same => nomatch same)
      fun left => Crawl.someone_moved (key ∈ ·.links) left id
  | download _ url =>
    exact covering.frame attend id
      (fun _ _ member => (List.mem_cons.mp member).resolve_left fun same => nomatch same) id
  | complete _ n i request url code headers data error oldDoc found fresh taken =>
    refine covering.frame attend (fun present => (Std.TreeMap.mem_erase.mp present).2)
      (fun _ _ member => (List.mem_cons.mp member).resolve_left fun same => nomatch same)
      fun left => Crawl.someone_moved (key ∈ ·.links) left fun own => ?_
    rw [fresh] at own
    exact own.elim
  | announce _ _ i reply data page =>
    refine ⟨fun present => attend (covering.inflight present), fun other content member own => ?_⟩
    rcases List.mem_cons.mp member with new | before
    · cases new
      exact .inr (Crawl.someone_self (key ∈ ·.links) (Set.mem_union_right _ own))
    · exact (covering.linked other content before own).imp attend fun left =>
        Crawl.someone_moved (key ∈ ·.links) left (Set.mem_union_left _ ·)
  | lookUp _ _ i other doc => exact covering.lookUp i other doc attend
  | submit _ _ i url doc target =>
    exact covering.frame attend id
      (fun _ _ member => (List.mem_cons.mp member).resolve_left fun same => nomatch same)
      fun left => Crawl.someone_moved (key ∈ ·.links) left id
  | store _ _ n doc found =>
    exact covering.frame attend id
      (fun _ _ member => (List.mem_cons.mp member).resolve_left fun same => nomatch same) id
  | failWrite _ n => exact ⟨covering.inflight, covering.linked⟩
  | found | write | waited =>
    exact covering.frame attend id (fun _ _ => id) fun left =>
      Crawl.someone_moved (key ∈ ·.links) left id

end Covering

/-! ### The crawl that came to rest -/

/-- **What became of a key**: a page with a copy under it was announced, a request for it failed, or
there was a copy of this generation before the crawl. -/
def Outcome (e : EngineData Url) (pageCache : Str → Option DataPointer)
    (log : List (EngineEvent Url)) (key : Str) : Prop :=
  (∃ data, e.Announced log (key, data)) ∨
    (∃ request, .completed request true ∈ log ∧ e.swarm.toString request.url = key) ∨
    e.requestsAfter (pageCache key) = false

/-- Where nothing is left to do, every answer without an error had its page announced. -/
theorem Handled.outcome (handled : Handled e pageCache c.shared.log key) (pages : Pages e c)
    (done : ∀ i, (c.duties i).Done) : Outcome e pageCache c.shared.log key := by
  rcases handled with ⟨request, error, completed, own⟩ | announced | fresh
  · cases error with
    | true => exact .inr (.inl ⟨request, completed, own⟩)
    | false =>
      rcases pages.answered request completed with ⟨reply, data, announced, asked⟩ |
        ⟨i, reply, data, page, -⟩
      · refine .inl ⟨data, reply, data, announced, ?_⟩
        rw [← own, ← asked]
        exact Set.mem_insert_of_mem _ rfl
      · rw [(done i).page] at page
        cases page
  · exact .inl announced
  · exact .inr (.inr fresh)

/-- **Every run keeps track of pages and keys.** -/
theorem Covering.of_run {events : List (FaultyAction Url)} {pool : EnginePool Url}
    (readable : Readable pageCache)
    (run : Run e.stepFaulty AnyStep (e.initial pageCache) events pool) :
    ∃ c, Tracks e pool c ∧ Pages e c ∧ ∀ key, Covering e pageCache key c := by
  obtain ⟨c, tracks, -, kept⟩ := crawl_invariant
    (fun c => Copied e pageCache c ∧ Pages e c ∧ ∀ key, Covering e pageCache key c) readable run
    ⟨.initial pageCache, .initial pageCache, .initial pageCache⟩
    fun _ _ _ _ _ _ ⟨copied, pages, covering⟩ move =>
      ⟨copied.step move, pages.step move, fun key => (covering key).step copied move⟩
  exact ⟨c, tracks, kept⟩

/-- What was submitted has an outcome, where nothing is left to do. -/
theorem Pages.outcome (pages : Pages e c) (done : ∀ i, (c.duties i).Done)
    (answered : c.shared.outstanding = []) {request : Request Url}
    (fed : .fed request ∈ c.shared.log) :
    Outcome e pageCache c.shared.log (e.swarm.toString request.url) := by
  refine Handled.outcome ?_ pages done
  rcases pages.fed request fed with waiting | ⟨error, completed⟩
  · rw [answered] at waiting
    cases waiting
  · exact .inl ⟨request, error, completed, rfl⟩

/-- So has what a followed link leads to. -/
theorem Covering.outcome {url : Url} (covering : Covering e pageCache (e.swarm.toString url) c)
    (pages : Pages e c) (done : ∀ i, (c.duties i).Done) (answered : c.shared.outstanding = [])
    (linked : e.Linked c.shared.log url) :
    Outcome e pageCache c.shared.log (e.swarm.toString url) := by
  refine Handled.outcome ?_ pages done
  obtain ⟨reply, data, announced, href, followed, rfl⟩ := linked
  have attended := (covering.linked reply data announced ⟨href, followed, rfl⟩).resolve_right
    fun ⟨i, left⟩ => by
      rw [(done i).links] at left
      exact left
  rcases attended with ⟨request, waiting, -⟩ | ⟨i, owed⟩ | handled
  · rw [answered] at waiting
    cases waiting
  · rw [(done i).owes] at owed
    exact owed.elim
  · exact handled

/-- **The crawl is complete when it comes to rest**: with no thread at work and no request
outstanding, every submitted URL has an outcome, and every URL a followed link of an announced page
leads to. Nothing else was submitted but by `engine::download`. -/
theorem crawl_complete (e : EngineData Url) (pageCache : Str → Option DataPointer)
    (events : List (FaultyAction Url)) (pool : EnginePool Url) (readable : Readable pageCache)
    (run : Run e.stepFaulty AnyStep (e.initial pageCache) events pool) (quiet : Quiet pool)
    (answered : pool.shared.outstanding = []) :
    (∀ request, .fed request ∈ pool.shared.log →
      Outcome e pageCache pool.shared.log (e.swarm.toString request.url)) ∧
    (∀ url, e.Linked pool.shared.log url →
      Outcome e pageCache pool.shared.log (e.swarm.toString url)) ∧
    ∀ request, .fed request ∈ pool.shared.log → request.origin = .link →
      e.Linked pool.shared.log request.url := by
  obtain ⟨c, tracks, pages, covering⟩ := Covering.of_run readable run
  have done := tracks.done quiet
  rw [← tracks.shared] at answered ⊢
  exact ⟨fun _ => pages.outcome done answered,
    fun _ => (covering _).outcome pages done answered, pages.linked⟩

/-- Two pages that link to one another: the link to the second led to its page. -/
theorem crawl_complete_linkedBack :
    Outcome PlainUrl.crawler (fun _ => none) (endState LinkedPages.runs_linkedBack).shared.log
      TwoPages.second :=
  (crawl_complete PlainUrl.crawler (fun _ => none) LinkedPages.linkedBack
    (endState LinkedPages.runs_linkedBack) (fun _ _ held => nomatch held)
    (Run.of_endState (fun _ _ _ => trivial) LinkedPages.runs_linkedBack) (by decide) rfl).1
    ⟨TwoPages.second, none, .link⟩ (List.mem_of_getElem? (i := 4) rfl)

end EngineData

end Wookie
