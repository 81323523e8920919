/-
**Which URLs a page leads to.**

`process_reply` sorts the links of a page and drops the repeated ones as they stand in the page. Two
that differ there may still resolve to one URL: the in-flight map catches these.

* `EngineData.Discovered` — the links whose URL is to be submitted.
* `EngineData.submitted_pageEvents` — the submissions of a call are the requested links that are
  due.
* `EngineData.discovery_exact` — **exactly the URLs of the discovered links are submitted, each
  once**, where the page cache can be read.
-/

import Mathlib.Data.List.TakeWhile
import Wookie.Engine.Call

namespace Wookie

open Library

variable {Url : Type}

/-- The URLs that were handed to the downloader. -/
def submitted (log : List (EngineEvent Url)) : List Url :=
  log.filterMap fun
    | .fed request => some request.url
    | _ => none

namespace EngineData

variable (e : EngineData Url) (around : Surroundings) (reply : Response Url) (data : Str)

/-- The URL of the link is to be fetched, as far as the page cache goes. -/
def due (link : Str) : Bool := e.requestsAfter (around.pageCache (e.linkKey reply link))

/-- **A link whose URL is to be submitted**, where these URLs are in flight. -/
structure Discovered (inflight : Std.TreeMap Str Document) (href : Str) : Prop where
  parsed : ∃ parser ∈ e.parsers, href ∈ parser reply data
  valid : e.swarm.isValid (e.swarm.ofString href) = true
  resolvedValid : e.swarm.isValid (e.requestUrl reply href) = true
  scheme : e.swarm.scheme (e.requestUrl reply href) = "https".toList ∨
    e.swarm.scheme (e.requestUrl reply href) = "http".toList
  host : e.swarm.host (e.requestUrl reply href) ≠ []
  elsewhere : e.swarm.toString (e.requestUrl reply href) ≠ e.swarm.toString reply.url
  accepted : ∀ filter ∈ e.urlFilters, filter reply (e.swarm.ofString href) = true
  free : e.swarm.toString (e.requestUrl reply href) ∉ inflight
  due : ∀ file, around.pageCache (e.swarm.toString (e.requestUrl reply href)) = some file →
    ∀ doc, unpackDocument file = .ok doc → doc.ts.before e.generationTime = true

/-- **The call ends, and submits exactly the URLs of the discovered links**, as the in-flight map
knows URLs, each once. -/
structure DiscoveryExact (inflight : Std.TreeMap Str Document) : Prop where
  ends : (e.callProcessReply around reply data inflight).1.isSome = true
  sound : ∀ url ∈ submitted (e.callProcessReply around reply data inflight).2.log,
    ∃ href, e.Discovered around reply data inflight href ∧ url = e.requestUrl reply href
  complete : ∀ href, e.Discovered around reply data inflight href →
    e.swarm.toString (e.requestUrl reply href) ∈
      (submitted (e.callProcessReply around reply data inflight).2.log).map e.swarm.toString
  once : ((submitted (e.callProcessReply around reply data inflight).2.log).map
    e.swarm.toString).Nodup

variable {e around reply data} {link : Str} {inflight : Std.TreeMap Str Document}

/-! ### What is submitted -/

theorem submitted_append (first second : List (EngineEvent Url)) :
    submitted (first ++ second) = submitted first ++ submitted second :=
  List.filterMap_append

/-- The processors are no submissions. -/
theorem submitted_processedBy (functors : List ProcessFunctor) (type : DocumentType) :
    submitted (processedBy functors reply data type) = [] := by
  rw [submitted, processedBy, List.filterMap_map]
  exact List.filterMap_eq_nil_iff.mpr fun _ _ => rfl

theorem submitted_ite_processedBy (c : Prop) [Decidable c] (functors : List ProcessFunctor)
    (type : DocumentType) :
    submitted (if c then processedBy functors reply data type else []) = [] := by
  split
  · exact submitted_processedBy functors type
  · rfl

/-- The outcome of a look-up is a submission if it is due. -/
theorem submitted_readEvents (requestUrl : Url) (answer : Option DataPointer) :
    submitted (e.readEvents reply data requestUrl answer) =
      if e.requestsAfter answer then [requestUrl] else [] := by
  rcases e.readEvents_cases requestUrl answer with
    ⟨rfl, events⟩ | ⟨file, doc, rfl, unpacked, old, events⟩ | ⟨notDue, events⟩
  · rw [events]
    rfl
  · rw [events, if_pos (requestsAfter_stale unpacked old)]
    exact congrArg (requestUrl :: ·) (submitted_ite_processedBy _ _ _)
  · rw [events, notDue]
    rfl

/-- **What a call submits**: the requested links that are due, up to the first that cannot be read.
-/
theorem submitted_pageEvents :
    submitted (e.pageEvents around reply data inflight) =
      (((e.newLinks reply inflight.contains (e.links reply data)).takeWhile
        (e.readable around reply)).filter (e.due around reply)).map (e.requestUrl reply) := by
  rw [pageEvents, submitted_append, submitted_append, submitted_ite_processedBy, loopEvents]
  generalize (e.newLinks reply inflight.contains (e.links reply data)).takeWhile _ = links
  show submitted (links.flatMap _) = _
  induction links with
  | nil => rfl
  | cons link rest ih =>
    rw [List.flatMap_cons, submitted_append, linkEvents, submitted_readEvents, ih, List.filter_cons,
      ← due]
    split <;> rfl

/-! ### Which links are requested -/

/-- **The checks of the link loop**, one by one. -/
theorem kept_iff : e.kept reply link = true ↔
    e.swarm.isValid (e.swarm.ofString link) = true ∧
    e.swarm.isValid (e.requestUrl reply link) = true ∧
    (e.swarm.scheme (e.requestUrl reply link) = "https".toList ∨
      e.swarm.scheme (e.requestUrl reply link) = "http".toList) ∧
    e.swarm.host (e.requestUrl reply link) ≠ [] ∧
    e.swarm.toString (e.requestUrl reply link) ≠ e.swarm.toString reply.url ∧
    ∀ filter ∈ e.urlFilters, filter reply (e.swarm.ofString link) = true := by
  simp only [kept, skipped, urlOk, Bool.and_eq_true, Bool.not_eq_true', Bool.or_eq_false_iff,
    Bool.not_eq_false', Bool.and_eq_false_iff, bne_eq_false_iff_eq, List.isEmpty_eq_false_iff,
    beq_eq_false_iff_ne, List.all_eq_true, and_assoc]

theorem mem_links : link ∈ e.links reply data ↔ ∃ parser ∈ e.parsers, link ∈ parser reply data := by
  rw [links, mem_sortUnique, List.mem_flatMap]

/-- A file that can be read is due if its document is. -/
theorem requestsAfter_iff {answer : Option DataPointer} (reads : fileReadable answer = true) :
    e.requestsAfter answer = true ↔ ∀ file, answer = some file → ∀ doc,
      unpackDocument file = .ok doc → doc.ts.before e.generationTime = true := by
  cases answer with
  | none => simp [requestsAfter]
  | some file =>
    simp only [requestsAfter]
    rcases e.read_cases file with ⟨_, unreadable⟩ | ⟨doc, unpacked, old⟩ | ⟨doc, unpacked, fresh⟩
    · rw [fileReadable, unreadable] at reads
      cases reads
    · simp [unpacked, old]
    · simp [unpacked, fresh]

/-- **A link is discovered** if the loop would request it, and it is due. -/
theorem discovered_iff (readable : e.readable around reply link = true) :
    e.Discovered around reply data inflight link ↔
      link ∈ e.links reply data ∧ e.kept reply link = true ∧
        inflight.contains (e.linkKey reply link) = false ∧ e.due around reply link = true := by
  rw [due, requestsAfter_iff readable, kept_iff, mem_links, ← Bool.not_eq_true,
    ← Std.TreeMap.mem_iff_contains]
  constructor
  · rintro ⟨parsed, valid, resolvedValid, scheme, host, elsewhere, accepted, free, due⟩
    exact ⟨parsed, ⟨valid, resolvedValid, scheme, host, elsewhere, accepted⟩, free, due⟩
  · rintro ⟨parsed, ⟨valid, resolvedValid, scheme, host, elsewhere, accepted⟩, free, due⟩
    exact ⟨parsed, valid, resolvedValid, scheme, host, elsewhere, accepted, free, due⟩

/-- Every file of the page cache can be read. -/
theorem readable_of_decodes
    (decodes : ∀ key file, around.pageCache key = some file →
      ∃ doc, unpackDocument file = .ok doc) (link : Str) :
    e.readable around reply link = true := by
  rw [readable]
  cases cached : around.pageCache (e.linkKey reply link) with
  | none => rfl
  | some file =>
    obtain ⟨doc, unpacked⟩ := decodes _ file cached
    rw [fileReadable, unpacked]
    rfl

/-- **Link discovery is exact and without duplicates.** -/
theorem discovery_exact (accepted : e.acceptedByFilters reply data = true)
    (decodes : ∀ key file, around.pageCache key = some file →
      ∃ doc, unpackDocument file = .ok doc)
    (inflight : Std.TreeMap Str Document) : e.DiscoveryExact around reply data inflight := by
  have readable : ∀ link, e.readable around reply link = true := readable_of_decodes decodes
  obtain ⟨ends, log⟩ := callProcessReply_eq accepted around inflight
  have urls : submitted (e.callProcessReply around reply data inflight).2.log =
      ((e.newLinks reply inflight.contains (e.links reply data)).filter (e.due around reply)).map
        (e.requestUrl reply) := by
    rw [log, submitted_pageEvents, List.takeWhile_eq_self_iff.mpr fun link _ => readable link]
  have keys : (submitted (e.callProcessReply around reply data inflight).2.log).map
      e.swarm.toString =
      ((e.newLinks reply inflight.contains (e.links reply data)).filter (e.due around reply)).map
        (e.linkKey reply) := by
    rw [urls, List.map_map]
    rfl
  refine ⟨?_, ?_, ?_, ?_⟩
  · rw [ends]
    exact List.all_eq_true.mpr fun link _ => readable link
  · intro url mem
    rw [urls] at mem
    obtain ⟨link, new, rfl⟩ := List.mem_map.mp mem
    obtain ⟨new, due⟩ := List.mem_filter.mp new
    obtain ⟨listed, kept, free⟩ := mem_firsts new
    exact ⟨link, (discovered_iff (readable link)).mpr ⟨listed, kept, free, due⟩, rfl⟩
  · intro href discovered
    obtain ⟨listed, kept, free, due⟩ := (discovered_iff (readable href)).mp discovered
    obtain ⟨first, new, same⟩ := exists_firsts listed kept free
    rw [keys]
    refine List.mem_map.mpr ⟨first, List.mem_filter.mpr ⟨new, ?_⟩, same⟩
    rw [EngineData.due, same]
    exact due
  · rw [keys]
    exact (firsts_nodup _ _ _ _).sublist (List.filter_sublist.map _)

/-! ### A page with several links -/

namespace Neighbours

/-- Two parsers, which find a link twice, a URL under two links, and links that are skipped: an
empty one, one to the page itself, and one of another scheme. -/
def crawler : EngineData Str :=
  { PlainUrl.crawler with
    parsers := [
      fun _ _ => ["/next".toList, "/".toList, "/seen".toList, "/other".toList],
      fun _ _ => ["/next".toList, "http://a/next".toList, [], "ftp://a/x".toList]] }

/-- This generation has seen one of the pages, an earlier one another. -/
def pageCache (key : Str) : Option DataPointer :=
  if key = "http://a/seen".toList then some (packDocument ⟨⟨1, 0⟩, key, []⟩)
  else if key = "http://a/next".toList then some (packDocument ⟨⟨0, 0⟩, key, []⟩)
  else none

def surroundings : Surroundings := ⟨pageCache, fun _ => ⟨2, 0⟩, id⟩

def page : Response Str := ⟨"http://a/".toList, "http://a/".toList, 200, []⟩

theorem decodes (key : Str) (file : DataPointer) (held : pageCache key = some file) :
    ∃ doc, unpackDocument file = .ok doc := by
  simp only [pageCache] at held
  split at held
  · cases held
    exact ⟨_, unpackDocument_packDocument _⟩
  · split at held
    · cases held
      exact ⟨_, unpackDocument_packDocument _⟩
    · cases held

/-- Two of its links lead on. -/
example : submitted (crawler.callProcessReply surroundings page [] ∅).2.log =
    ["http://a/next".toList, "http://a/other".toList] := rfl

end Neighbours

theorem discovery_exact_neighbours :
    Neighbours.crawler.DiscoveryExact Neighbours.surroundings Neighbours.page [] ∅ :=
  discovery_exact rfl Neighbours.decodes ∅

end EngineData

end Wookie
