/-
**Which pages the processors see.**

A page that the filters accept is handed to every processor, unless its reply is a `304`; one they
reject, to every fallback processor. The link loop hands an accepted page over once more for every
link whose copy is of an earlier generation.

* `Due` — a page was announced that a functor is to be called on.
* `Serving` — every call is due, and every call that is due was made or is a thread's to make.
* `processors_called` — **once no thread is at work the functors were called on exactly the pages
  they are for**; in no state on any other.
-/

import Wookie.Engine.Copies

namespace Wookie

open Library

variable {Url : Type}

namespace EngineData

variable (e : EngineData Url)

/-- **The functor is to be called on an announced page.** -/
def Due (log : List (EngineEvent Url)) (call : PageCall Url) : Prop :=
  .processing call.2.1 call.2.2 ∈ log ∧ call.1 ∈ e.callees call.2.1 call.2.2

/-- The functor was called on the page. -/
def WasCalled (log : List (EngineEvent Url)) (call : PageCall Url) : Prop :=
  ∃ type, .processed call.1 call.2.1 call.2.2 type ∈ log

/-- **What calls and pages have to do with each other.** -/
structure Serving (c : Crawl Url) : Prop where
  served : ∀ i, ∀ call ∈ (c.duties i).served, e.Due c.shared.log call
  called : ∀ call, WasCalled c.shared.log call → e.Due c.shared.log call
  due : ∀ call, e.Due c.shared.log call →
    WasCalled c.shared.log call ∨ ∃ i, call ∈ (c.duties i).calls

variable {e} {pageCache : Str → Option DataPointer} {c c' : Crawl Url}
  {event : FaultyAction Url} {log log' : List (EngineEvent Url)} {call : PageCall Url}

theorem Due.mono (due : e.Due log call) (grows : log ⊆ log') : e.Due log' call :=
  ⟨grows due.1, due.2⟩

theorem WasCalled.mono (called : WasCalled log call) (grows : log ⊆ log') :
    WasCalled log' call := by
  obtain ⟨type, member⟩ := called
  exact ⟨type, grows member⟩

/-- The calls a page makes are due once it is announced. -/
theorem due_callsOf {reply : Response Url} {data : Str} (announced : .processing reply data ∈ log)
    (own : call ∈ callsOf (e.callees reply data) reply data) : e.Due log call := by
  obtain ⟨functor, member, rfl⟩ := own
  exact ⟨announced, member⟩

namespace Serving

theorem initial (pageCache : Str → Option DataPointer) :
    Serving e ⟨(e.initial pageCache).shared, fun _ => .none⟩ where
  served _ _ member := member.elim
  called _ := fun ⟨_, member⟩ => nomatch member
  due _ := fun ⟨announced, _⟩ => nomatch announced

/-- No page is announced, and no functor called. -/
theorem frame (serving : Serving e c) (grows : c.shared.log ⊆ c'.shared.log)
    (processing : ∀ reply data, .processing reply data ∈ c'.shared.log →
      .processing reply data ∈ c.shared.log)
    (processed : ∀ functor reply data type, .processed functor reply data type ∈ c'.shared.log →
      .processed functor reply data type ∈ c.shared.log)
    (served : ∀ i, ∀ call ∈ (c'.duties i).served, e.Due c'.shared.log call)
    (calls : ∀ call, (∃ i, call ∈ (c.duties i).calls) → ∃ i, call ∈ (c'.duties i).calls) :
    Serving e c' where
  served := served
  called call := fun ⟨type, member⟩ =>
    (serving.called call ⟨type, processed _ _ _ _ member⟩).mono grows
  due call := fun ⟨announced, own⟩ =>
    (serving.due call ⟨processing _ _ announced, own⟩).imp (·.mono grows) (calls call)

/-- A thread's part in such a move leaves its calls alone. -/
theorem moved (serving : Serving e c) {shared : EngineState Url} {i : ℕ} {φ : Duty Url}
    (grows : c.shared.log ⊆ shared.log)
    (processing : ∀ reply data, .processing reply data ∈ shared.log →
      .processing reply data ∈ c.shared.log)
    (processed : ∀ functor reply data type, .processed functor reply data type ∈ shared.log →
      .processed functor reply data type ∈ c.shared.log)
    (served : φ.served ⊆ (c.duties i).served) (calls : (c.duties i).calls ⊆ φ.calls) :
    Serving e (c.moved shared i φ) := by
  refine serving.frame grows processing processed ?_
    fun call => fun somewhere => Crawl.someone_moved (call ∈ ·.calls) somewhere (calls ·)
  exact Crawl.everyone_moved (fun φ => ∀ call ∈ φ.served, e.Due shared.log call)
    (fun j call own => (serving.served j call own).mono grows)
    fun call own => (serving.served i call (served own)).mono grows

/-- **A page is announced**: its calls are the thread's to make. -/
theorem announce (serving : Serving e c) (i : ℕ) (reply : Response Url) (data : Str) :
    Serving e (c.moved { c.shared with log := .processing reply data :: c.shared.log } i
      ((c.duties i).announce (e.work reply data))) := by
  have grows : c.shared.log ⊆ .processing reply data :: c.shared.log := List.subset_cons_self _ _
  refine ⟨?_, fun call => fun ⟨type, member⟩ => ?_, fun call => fun ⟨announced, own⟩ => ?_⟩
  · refine Crawl.everyone_moved (fun φ => ∀ call ∈ φ.served, e.Due _ call) ?_ ?_
    · exact fun j call own => (serving.served j call own).mono grows
    · rintro call (before | own)
      · exact (serving.served i call before).mono grows
      · exact due_callsOf List.mem_cons_self own
  · have before := (List.mem_cons.mp member).resolve_left fun same => nomatch same
    exact (serving.called call ⟨type, before⟩).mono grows
  · rcases List.mem_cons.mp announced with new | before
    · obtain ⟨functor, other, content⟩ := call
      cases new
      refine .inr (Crawl.someone_self ((functor, other, content) ∈ ·.calls) ?_)
      exact Set.mem_union_right _ ⟨functor, own, rfl⟩
    · refine (serving.due call ⟨before, own⟩).imp (·.mono grows) fun somewhere => ?_
      exact Crawl.someone_moved (call ∈ ·.calls) somewhere (Set.mem_union_left _ ·)

/-- **A functor is called**: the call was due. -/
theorem serve (serving : Serving e c) {i : ℕ} {functor : ProcessFunctor} {reply : Response Url}
    {data : Str} (type : DocumentType) (own : (functor, reply, data) ∈ (c.duties i).served) :
    Serving e (c.moved { c.shared with
      log := .processed functor reply data type :: c.shared.log } i
        ((c.duties i).called {(functor, reply, data)})) := by
  have grows : c.shared.log ⊆ .processed functor reply data type :: c.shared.log :=
    List.subset_cons_self _ _
  refine ⟨?_, fun call => fun ⟨type, member⟩ => ?_, fun call => fun ⟨announced, callee⟩ => ?_⟩
  · exact Crawl.everyone_moved (fun φ => ∀ call ∈ φ.served, e.Due _ call)
      (fun j call own => (serving.served j call own).mono grows)
      fun call own => (serving.served i call own).mono grows
  · rcases List.mem_cons.mp member with new | before
    · obtain ⟨other, page, content⟩ := call
      cases new
      exact (serving.served i _ own).mono grows
    · exact (serving.called call ⟨type, before⟩).mono grows
  · by_cases same : call = (functor, reply, data)
    · subst same
      exact .inl ⟨type, List.mem_cons_self⟩
    · have before := (List.mem_cons.mp announced).resolve_left fun same => nomatch same
      refine (serving.due call ⟨before, callee⟩).imp (·.mono grows) fun somewhere => ?_
      exact Crawl.someone_moved (call ∈ ·.calls) somewhere fun left => ⟨left, same⟩

theorem step (serving : Serving e c) (move : e.Move event c c') : Serving e c' := by
  cases move with
  | aside _ now => exact ⟨serving.served, serving.called, serving.due⟩
  | announce _ _ i reply data page => exact serving.announce i reply data
  | serve _ _ i functor reply data type own => exact serving.serve type own
  | complete _ n i request url code headers data error oldDoc found fresh taken =>
    refine serving.moved (List.subset_cons_self _ _)
      (fun _ _ member => (List.mem_cons.mp member).resolve_left fun same => nomatch same)
      (fun _ _ _ _ member => (List.mem_cons.mp member).resolve_left fun same => nomatch same) ?_ ?_
    · intro call own
      unfold entryDuty at own
      split at own
      · exact own.elim
      · exact own.elim
    · rw [fresh]
      exact Set.empty_subset _
  | download | store =>
    exact serving.frame (List.subset_cons_self _ _)
      (fun _ _ member => (List.mem_cons.mp member).resolve_left fun same => nomatch same)
      (fun _ _ _ _ member => (List.mem_cons.mp member).resolve_left fun same => nomatch same)
      (fun i call own => (serving.served i call own).mono (List.subset_cons_self _ _)) fun _ => id
  | submit =>
    exact serving.moved (List.subset_cons_self _ _)
      (fun _ _ member => (List.mem_cons.mp member).resolve_left fun same => nomatch same)
      (fun _ _ _ _ member => (List.mem_cons.mp member).resolve_left fun same => nomatch same)
      subset_rfl subset_rfl
  | failWrite _ n => exact ⟨serving.served, serving.called, serving.due⟩
  | lookUp | found | write | waited =>
    exact serving.moved (List.Subset.refl _) (fun _ _ => id) (fun _ _ _ _ => id) subset_rfl
      subset_rfl

end Serving

/-- **Every run.** -/
theorem Serving.of_run {events : List (FaultyAction Url)} {pool : EnginePool Url}
    (readable : Readable pageCache)
    (run : Run e.stepFaulty AnyStep (e.initial pageCache) events pool) :
    ∃ c, Tracks e pool c ∧ Serving e c :=
  crawl_invariant (Serving e) readable run (.initial pageCache)
    fun _ _ _ _ _ _ serving move => serving.step move

/-- Where no thread is at work, every call that is due was made. -/
theorem Serving.called_of_due {pool : EnginePool Url} (serving : Serving e c)
    (tracks : Tracks e pool c) (quiet : Quiet pool) {call : PageCall Url}
    (due : e.Due c.shared.log call) : WasCalled c.shared.log call := by
  rcases serving.due call due with called | ⟨i, left⟩
  · exact called
  · rw [(tracks.done quiet i).calls] at left
    exact left.elim

/-- **The processors see the pages they are for, and no others.** In every state a functor was only
called on announced pages, as one of the functors they are for; once no thread is at work it was
called on all of them. -/
theorem processors_called (e : EngineData Url) (pageCache : Str → Option DataPointer)
    (events : List (FaultyAction Url)) (pool : EnginePool Url) (readable : Readable pageCache)
    (run : Run e.stepFaulty AnyStep (e.initial pageCache) events pool) (functor : ProcessFunctor)
    (reply : Response Url) (data : Str) :
    ((∃ type, .processed functor reply data type ∈ pool.shared.log) →
      .processing reply data ∈ pool.shared.log ∧ functor ∈ e.callees reply data) ∧
    (Quiet pool → ((∃ type, .processed functor reply data type ∈ pool.shared.log) ↔
      .processing reply data ∈ pool.shared.log ∧ functor ∈ e.callees reply data)) := by
  obtain ⟨c, tracks, serving⟩ := Serving.of_run readable run
  rw [← tracks.shared]
  refine ⟨serving.called (functor, reply, data), fun quiet =>
    ⟨serving.called (functor, reply, data), fun due => ?_⟩⟩
  have due : e.Due c.shared.log (functor, reply, data) := due
  exact serving.called_of_due tracks quiet due

/-! ### One page without links -/

namespace OnePage

/-- A crawler with one processor. -/
def crawler : EngineData Str := { PlainUrl.crawler with processors := [0] }

def page : Response Str := ⟨TwoPages.first, TwoPages.first, 200, []⟩

def actions : List (EngineAction Str) :=
  [.download TwoPages.first, .complete 0 TwoPages.first 200 [] [] false] ++
    List.replicate 4 (.thread 0) ++ [.takeEffect 0, .thread 0]

def events : List (FaultyAction Str) := actions.map .action

theorem runs : (exec crawler.stepFaulty (fun _ _ => true) (crawler.initial fun _ => none)
    events).isSome = true := rfl

end OnePage

theorem processors_called_onePage :
    (∃ type, .processed 0 OnePage.page [] type ∈ (endState OnePage.runs).shared.log) ↔
      .processing OnePage.page [] ∈ (endState OnePage.runs).shared.log ∧
        0 ∈ OnePage.crawler.callees OnePage.page [] :=
  (processors_called OnePage.crawler (fun _ => none) OnePage.events (endState OnePage.runs)
    (fun _ _ held => nomatch held) (Run.of_endState (fun _ _ _ => trivial) OnePage.runs) 0
    OnePage.page []).2 (by decide)

end EngineData

end Wookie
