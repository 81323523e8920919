/-
**What the processors see of a page.**

`process_reply` hands the page to the processors, and then once more for every link whose URL has a
document of an earlier generation in the page cache.

* `EngineData.ProcessedOnce` — the page is processed once, and cached documents as themselves.
* `EngineData.MeetsStale` — the link loop comes to such a document.
* `EngineData.newCalls_pageEvents`, `EngineData.mem_documentCache_iff` — the calls, of both types.
* `EngineData.processed_once_iff` — **a page is processed so** exactly where there are no
  processors, or the loop comes to no stale document.
-/

import Wookie.Engine.Discovery

namespace Wookie

open Library

variable {Url : Type}

/-- The calls for new documents: who was called, and with what. -/
def newCalls (log : List (EngineEvent Url)) : List (ProcessFunctor × Response Url × Str) :=
  log.filterMap fun
    | .processed functor reply data .documentNew => some (functor, reply, data)
    | _ => none

namespace EngineData

variable (e : EngineData Url) (around : Surroundings) (reply : Response Url) (data : Str)

/-- **The page is processed once and as itself**: every processor sees it once, and what it sees of
the page cache is what was found there for the URL that is fetched again. -/
structure ProcessedOnce (inflight : Std.TreeMap Str Document) : Prop where
  new : newCalls (e.callProcessReply around reply data inflight).2.log =
    e.processors.map fun functor => (functor, reply, data)
  cached : ∀ functor seen content,
    .processed functor seen content .documentCache ∈
      (e.callProcessReply around reply data inflight).2.log →
    ∃ url doc, .fed ⟨url, some doc, .link⟩ ∈
        (e.callProcessReply around reply data inflight).2.log ∧
      e.swarm.toString seen.url = e.swarm.toString url ∧ content = doc.data

/-- The page cache has a document of an earlier generation for this URL. -/
def StaleAt (key : Str) : Prop :=
  ∃ file doc, around.pageCache key = some file ∧ unpackDocument file = .ok doc ∧
    doc.ts.before e.generationTime = true

/-- **The link loop comes to a stale document**: no link before it that would be looked up leads to
a file that cannot be read. -/
def MeetsStale (inflight : Std.TreeMap Str Document) : Prop :=
  ∃ before link after, e.links reply data = before ++ link :: after ∧
    Reached (e.kept reply) (e.linkKey reply) inflight.contains
      (fun key => fileReadable (around.pageCache key)) before link ∧
    e.StaleAt around (e.linkKey reply link)

variable {e around reply data} {link : Str} {inflight : Std.TreeMap Str Document}

/-! ### Calls for new documents -/

theorem newCalls_append (first second : List (EngineEvent Url)) :
    newCalls (first ++ second) = newCalls first ++ newCalls second :=
  List.filterMap_append

theorem newCalls_documentNew (functors : List ProcessFunctor) :
    newCalls (processedBy functors reply data .documentNew) =
      functors.map fun functor => (functor, reply, data) := by
  rw [newCalls, processedBy, List.filterMap_map, ← List.filterMap_eq_map]
  rfl

/-- The link loop calls for no new document. -/
theorem newCalls_readEvents (requestUrl : Url) (answer : Option DataPointer) :
    newCalls (e.readEvents reply data requestUrl answer) = [] := by
  refine List.filterMap_eq_nil_iff.mpr fun event mem => ?_
  rcases e.readEvents_cases requestUrl answer with
    ⟨-, events⟩ | ⟨file, doc, -, -, -, events⟩ | ⟨-, events⟩
  · rw [events, List.mem_singleton] at mem
    rw [mem]
  · rw [events] at mem
    rcases List.mem_cons.mp mem with rfl | called
    · rfl
    · split at called
      · obtain ⟨functor, -, rfl⟩ := List.mem_map.mp called
        rfl
      · cases called
  · rw [events] at mem
    cases mem

/-- **The page itself**, once for every processor. -/
theorem newCalls_pageEvents (modified : reply.code ≠ notModified) :
    newCalls (e.pageEvents around reply data inflight) =
      e.processors.map fun functor => (functor, reply, data) := by
  have loop : newCalls (e.loopEvents around reply data
      (e.newLinks reply inflight.contains (e.links reply data))) = [] := by
    rw [loopEvents, newCalls, List.filterMap_flatMap]
    exact List.flatMap_eq_nil_iff.mpr fun link _ => newCalls_readEvents _ _
  rw [pageEvents, newCalls_append, newCalls_append, loop, List.append_nil, if_pos modified,
    newCalls_documentNew]
  rfl

/-! ### Calls for cached documents -/

/-- The calls of functors, one by one. -/
theorem mem_processedBy {functors : List ProcessFunctor} {functor : ProcessFunctor}
    {seen : Response Url} {content : Str} {type type' : DocumentType} :
    .processed functor seen content type' ∈ processedBy functors reply data type ↔
      (functor ∈ functors ∧ seen = reply ∧ content = data) ∧ type' = type := by
  rw [processedBy, List.mem_map]
  constructor
  · rintro ⟨_, listed, ⟨⟩⟩
    exact ⟨⟨listed, rfl, rfl⟩, rfl⟩
  · rintro ⟨⟨listed, rfl, rfl⟩, rfl⟩
    exact ⟨functor, listed, rfl⟩

section Calls

variable {functor : ProcessFunctor} {seen : Response Url} {content : Str}

/-- **A stale document** leads to the calls of all processors, with the page that links to it. -/
theorem mem_linkEvents_iff (modified : reply.code ≠ notModified) (link : Str) :
    .processed functor seen content .documentCache ∈ e.linkEvents around reply data link ↔
      (functor ∈ e.processors ∧ seen = reply ∧ content = data) ∧
        e.StaleAt around (e.linkKey reply link) := by
  rw [linkEvents, StaleAt]
  generalize around.pageCache (e.linkKey reply link) = answer
  rcases e.readEvents_cases (e.requestUrl reply link) answer with
    ⟨rfl, events⟩ | ⟨file, doc, rfl, unpacked, old, events⟩ | ⟨notDue, events⟩
  · rw [events]
    simp
  · rw [events, if_pos modified, List.mem_cons, or_iff_right (by simp), mem_processedBy]
    exact and_congr_right fun _ => iff_of_true rfl ⟨file, doc, rfl, unpacked, old⟩
  · rw [events]
    refine iff_of_false List.not_mem_nil ?_
    rintro ⟨-, file, doc, rfl, unpacked, old⟩
    rw [requestsAfter_stale unpacked old] at notDue
    cases notDue

/-- A stale document is one that can be read. -/
theorem StaleAt.readable {key : Str} (stale : e.StaleAt around key) :
    fileReadable (around.pageCache key) = true := by
  obtain ⟨file, doc, held, unpacked, -⟩ := stale
  rw [held, fileReadable, unpacked]
  rfl

/-- **The stale documents the loop comes to** are those of the links that are requested. -/
theorem meetsStale_iff : e.MeetsStale around reply data inflight ↔
    ∃ link ∈ (e.newLinks reply inflight.contains (e.links reply data)).takeWhile
      (e.readable around reply), e.StaleAt around (e.linkKey reply link) :=
  (exists_mem_takeWhile_firsts fun _ stale => StaleAt.readable stale).symm

/-- **What the processors are called for** besides the page: every stale document the loop comes to.
-/
theorem mem_documentCache_iff (modified : reply.code ≠ notModified) :
    .processed functor seen content .documentCache ∈ e.pageEvents around reply data inflight ↔
      (functor ∈ e.processors ∧ seen = reply ∧ content = data) ∧
        e.MeetsStale around reply data inflight := by
  rw [meetsStale_iff, pageEvents, if_pos modified, List.mem_append, List.mem_append,
    List.mem_singleton, mem_processedBy, loopEvents, List.mem_flatMap]
  simp only [mem_linkEvents_iff modified]
  constructor
  · rintro ((page | ⟨-, new⟩) | ⟨link, requested, called, stale⟩)
    · cases page
    · cases new
    · exact ⟨called, link, requested, stale⟩
  · rintro ⟨called, link, requested, stale⟩
    exact .inr ⟨link, requested, called, stale⟩

end Calls

/-- What is submitted is never the page itself. -/
theorem toString_ne_of_submitted {url : Url}
    (mem : url ∈ submitted (e.pageEvents around reply data inflight)) :
    e.swarm.toString reply.url ≠ e.swarm.toString url := by
  rw [submitted_pageEvents] at mem
  obtain ⟨link, due, rfl⟩ := List.mem_map.mp mem
  have new := (List.takeWhile_sublist _).subset (List.mem_filter.mp due).1
  obtain ⟨-, -, -, -, elsewhere, -⟩ := kept_iff.mp (mem_firsts new).2.1
  exact elsewhere.symm

/-- **A stale document is processed as the page that links to it.** -/
theorem not_processedOnce (accepted : e.acceptedByFilters reply data = true)
    (modified : reply.code ≠ notModified) {functor : ProcessFunctor}
    (registered : functor ∈ e.processors) (meets : e.MeetsStale around reply data inflight) :
    ¬e.ProcessedOnce around reply data inflight := by
  intro once
  have log := (callProcessReply_eq accepted around inflight).2
  have called := (mem_documentCache_iff modified).mpr ⟨⟨registered, rfl, rfl⟩, meets⟩
  rw [← log] at called
  obtain ⟨url, doc, fed, same, -⟩ := once.cached functor reply data called
  rw [log] at fed
  exact toString_ne_of_submitted (List.mem_filterMap.mpr ⟨_, fed, rfl⟩) same

/-- **A page is processed once and as itself** exactly where there are no processors, or the loop
comes to no stale document. -/
theorem processed_once_iff (accepted : e.acceptedByFilters reply data = true)
    (modified : reply.code ≠ notModified) (inflight : Std.TreeMap Str Document) :
    e.ProcessedOnce around reply data inflight ↔
      e.processors = [] ∨ ¬e.MeetsStale around reply data inflight := by
  constructor
  · intro once
    by_contra neither
    obtain ⟨some_, meets⟩ := not_or.mp neither
    obtain ⟨functor, registered⟩ := List.exists_mem_of_ne_nil _ some_
    exact not_processedOnce accepted modified registered (not_not.mp meets) once
  · intro quiet
    have log := (callProcessReply_eq accepted around inflight).2
    refine ⟨by rw [log, newCalls_pageEvents modified], fun functor seen content called => ?_⟩
    rw [log] at called
    obtain ⟨⟨registered, -, -⟩, meets⟩ := (mem_documentCache_iff modified).mp called
    rcases quiet with none | never
    · rw [none] at registered
      cases registered
    · exact absurd meets never

/-- A crawler with a processor. -/
def processing : EngineData Str := { PlainUrl.crawler with processors := [0] }

/-- A page cache whose every document was stored at this time. -/
def cachedAt (tsec : ℕ) : Surroundings :=
  ⟨fun _ => some (packDocument ⟨⟨tsec, 0⟩, [], "old".toList⟩), fun _ => ⟨2, 0⟩, id⟩

def page : Response Str := ⟨"http://a/".toList, "http://a/".toList, 200, []⟩

/-- A link to a document of this generation. -/
theorem processed_once_iff_fresh :
    processing.ProcessedOnce (cachedAt 1) page "/next".toList ∅ := by
  refine (processed_once_iff rfl (by decide) ∅).mpr (.inr ?_)
  rintro ⟨before, link, after, -, -, file, doc, held, unpacked, old⟩
  cases held
  rw [unpackDocument_packDocument] at unpacked
  cases unpacked
  revert old
  decide

/-- **A link to a document of an earlier generation**: the processor is given the page for it. -/
theorem processed_as_the_page :
    ¬ ∀ (e : EngineData Str) (around : Surroundings) (reply : Response Str) (data : Str)
      (inflight : Std.TreeMap Str Document), e.acceptedByFilters reply data = true →
      reply.code ≠ notModified → e.ProcessedOnce around reply data inflight := by
  intro always
  refine not_processedOnce rfl (by decide) List.mem_cons_self ?_
    (always processing (cachedAt 0) page "/next".toList ∅ rfl (by decide))
  exact ⟨[], "/next".toList, [], by decide, ⟨by decide, by simp, by simp⟩, _, _, rfl,
    unpackDocument_packDocument _, by decide⟩

end EngineData

end Wookie
