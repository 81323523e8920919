/-
**Going through what was crawled: `test/iterator.cpp` and `document_reader --iterate`.**

`rindex` files every page under the index of its collection, `<host>.collection`. `document_reader`
prints the records found there; `iterator` collects the keys they name, and prints the documents
that a bulk read of them answers: those of the page cache, or with `--text` the texts.

* `unpackAll` — the loops that unpack and print; `documentReader`, `iterator` — what the programs
  print.
* `unpackAll_perm` — packed documents are printed, in whatever order they come.
* `Rindex.collected` — the records found under the collection are those of the pages.
* `Rindex.collection_exact` — **after a crawl that came to rest, both print one document for every
  page that links lead to, and no other.**
-/

import Mathlib.Data.List.Perm.Basic
import Mathlib.Data.Set.List
import Wookie.Rindex

namespace Wookie

open Library FindResult

/-! ### The programs -/

/-- The loop over packed documents: those unpacked, and what it throws. -/
def unpackAll : List DataPointer → List Document × Option ConvertError
  | [] => ([], none)
  | file :: rest =>
    match unpackDocument file with
    | .error thrown => ([], some thrown)
    | .ok doc =>
      let (docs, thrown) := unpackAll rest
      (doc :: docs, thrown)

/-- `idx.data` for all `r.indexes` of all results. -/
def payloads (results : List Entry) : List DataPointer :=
  results.flatMap fun r => r.indexes.map Prod.snd

/-- `document_reader --iterate`: what is printed of the results of `storage::find`. -/
def documentReader (results : List Entry) : List Document × Option ConvertError :=
  unpackAll (payloads results)

/-- `iterator`: the same results, read again by their keys. -/
def iterator (bulkRead : List Str → List DataPointer) (results : List Entry) :
    List Document × Option ConvertError :=
  match unpackAll (payloads results) with
  | (_, some thrown) => ([], some thrown)
  | (docs, none) => unpackAll (bulkRead (docs.map Document.key))

/-- `find_all_indexes` answers no object twice, and none with an index twice. -/
structure AnsweredOnce (results : List Entry) : Prop where
  ids : (results.map Entry.id).Nodup
  indexes : ∀ entry ∈ results, (entry.indexes.map Prod.fst).Nodup

/-- `session::bulk_read` of different keys answers the files that are stored, in any order. -/
def BulkReads (held : Str → Option DataPointer) (bulkRead : List Str → List DataPointer) : Prop :=
  ∀ keys : List Str, keys.Nodup → (bulkRead keys).Perm (keys.filterMap held)

/-! ### Packed documents -/

theorem packDocument_injective : Function.Injective packDocument := by
  intro doc other same
  have read := unpackDocument_packDocument doc
  rw [same, unpackDocument_packDocument] at read
  cases read
  rfl

@[simp] theorem unpackAll_packed (docs : List Document) :
    unpackAll (docs.map packDocument) = (docs, none) := by
  induction docs with
  | nil => rfl
  | cons doc rest ih => simp only [List.map_cons, unpackAll, unpackDocument_packDocument, ih]

/-- **Packed documents are printed**, in whatever order they come. -/
theorem unpackAll_perm {files : List DataPointer} {docs : List Document}
    (perm : files.Perm (docs.map packDocument)) :
    (unpackAll files).2 = none ∧ (unpackAll files).1.Perm docs := by
  obtain ⟨printed, rfl⟩ : files ∈ Set.range (List.map packDocument) := by
    rw [Set.range_list_map]
    intro file member
    obtain ⟨doc, -, same⟩ := List.mem_map.mp (perm.mem_iff.mp member)
    exact ⟨doc, same⟩
  rw [unpackAll_packed]
  exact ⟨rfl, (List.map_perm_map_iff packDocument_injective).mp perm⟩

/-- Every key is that of a stored document. -/
theorem exists_stored {held : Str → Option DataPointer} {keys : List Str}
    (stored : ∀ key ∈ keys, ∃ doc, held key = some (packDocument doc) ∧ doc.key = key) :
    ∃ docs : List Document,
      keys.filterMap held = docs.map packDocument ∧ docs.map Document.key = keys := by
  induction keys with
  | nil => exact ⟨[], rfl, rfl⟩
  | cons key rest ih =>
    obtain ⟨docs, files, own⟩ := ih fun key member => stored key (List.mem_cons_of_mem _ member)
    obtain ⟨doc, cached, same⟩ := stored key List.mem_cons_self
    refine ⟨doc :: docs, ?_, ?_⟩
    · rw [List.filterMap_cons_some cached, files, List.map_cons]
    · rw [List.map_cons, same, own]

/-- Every entry is that of one document. -/
theorem exists_recorded {ell : Elliptics} {results : List Entry}
    (recorded : ∀ entry ∈ results, ∃ doc, entry.indexes.map Prod.snd = [packDocument doc] ∧
      ell.transform doc.key = entry.id) :
    ∃ docs : List Document, payloads results = docs.map packDocument ∧
      docs.map (fun doc => ell.transform doc.key) = results.map Entry.id := by
  induction results with
  | nil => exact ⟨[], rfl, rfl⟩
  | cons entry rest ih =>
    obtain ⟨docs, files, own⟩ :=
      ih fun entry member => recorded entry (List.mem_cons_of_mem _ member)
    obtain ⟨doc, one, same⟩ := recorded entry List.mem_cons_self
    refine ⟨doc :: docs, ?_, ?_⟩
    · rw [payloads, List.flatMap_cons, one, List.map_cons, ← files]
      rfl
    · rw [List.map_cons, List.map_cons, same, own]

namespace Rindex

section Collection

variable {Url : Type} {r : Rindex Url} {e : EngineData Url} {web : Web Url}
  {pageCache : Str → Option DataPointer} {events : List (FaultyAction Url)} {pool : EnginePool Url}
  {base : Str} {updates : List Update} {loc : Locale} {ell : Elliptics} {results : List Entry}

/-- **One document is printed for every page of the site**, under the page's URL and with the
content given; and no other. -/
structure PrintsSite (r : Rindex Url) (site : Set (Page Url)) (content : Page Url → Str)
    (printed : List Document × Option ConvertError) : Prop where
  clean : printed.2 = none
  once : (printed.1.map Document.key).Nodup
  exact : ∀ key data, (∃ ts, ⟨ts, key, data⟩ ∈ printed.1) ↔
    ∃ page ∈ site, r.swarm.toString page.url = key ∧ content page = data

/-- **The raw id of the collection is no word's, and no two pages share one.** -/
structure Separate (r : Rindex Url) (base : Str) (loc : Locale) (ell : Elliptics)
    (site : Set (Page Url)) : Prop where
  collection : ∀ page ∈ site, ∀ word ∈ loc.words (r.pageText false page.data),
    ell.transform word ≠ ell.transform (base ++ ".collection".toList)
  keys : ∀ page ∈ site, ∀ other ∈ site,
    ell.transform (r.swarm.toString page.url) = ell.transform (r.swarm.toString other.url) →
      page.url = other.url

/-- What the collection's index is asked for. -/
abbrev asked (base : Str) (ell : Elliptics) : List RawId :=
  [ell.transform (base ++ ".collection".toList)]

/-- **An entry found under the collection holds one record**, that of a page. -/
theorem record_of_entry (crawled : Crawled r e web pageCache events pool)
    (indexed : Indexed r base pool updates) (separate : Separate r base loc ell (site e web pool))
    (returned : Returned (Indexes.ofUpdates loc ell updates) (asked base ell) results)
    (once : AnsweredOnce results) {entry : Entry} (found : entry ∈ results) :
    ∃ page ∈ site e web pool, ∃ ts, ell.transform (r.swarm.toString page.url) = entry.id ∧
      entry.indexes.map Prod.snd =
        [packDocument ⟨ts, r.swarm.toString page.url, r.swarm.toString page.url⟩] := by
  obtain ⟨update, newest, -⟩ :=
    mem_ids_ofUpdates.mp (returned.carries entry found _ (List.mem_singleton.mpr rfl))
  obtain ⟨listed, own⟩ := mem_of_lastIndexed newest
  obtain ⟨page, inside, key, named, text⟩ := page_of_update crawled indexed listed
  have based : update.baseIndex ≠ [] := by simp [named]
  rw [key] at own
  refine ⟨page, inside, update.ts, own, ?_⟩
  -- of all that the update sets, only the base record is under the collection's id
  have only : ∀ index, index ∈ entry.indexes ↔ index =
      (ell.transform update.baseIndex, packDocument ⟨update.ts, update.key, update.key⟩) := by
    intro index
    rw [returned.indexes_iff entry found, mem_ofUpdates]
    constructor
    · rintro ⟨⟨update', newest', set⟩, requested⟩
      rw [newest] at newest'
      cases newest'
      rw [List.mem_singleton, ← named] at requested
      obtain ⟨name, same, record | ⟨-, -, data⟩⟩ := mem_indexSet set
      · have word := record.word
        have shared := same.trans requested
        rw [named] at shared
        refine absurd shared ?_
        rw [text, indexedText] at word
        cases accepted : accepts e web page with
        | true =>
          rw [accepted] at word
          exact separate.collection page inside name word
        | false =>
          rw [accepted, Bool.not_false, pageText_fallback, loc.words_nil] at word
          cases word
      · exact Prod.ext requested data
    · rintro rfl
      exact ⟨⟨update, newest, base_mem_indexSet based⟩, List.mem_singleton.mpr (named ▸ rfl)⟩
  have single : entry.indexes =
      [(ell.transform update.baseIndex, packDocument ⟨update.ts, update.key, update.key⟩)] := by
    refine List.perm_singleton.mp ?_
    refine (List.perm_ext_iff_of_nodup (.of_map _ (once.indexes entry found))
      (List.nodup_singleton _)).mpr fun index => ?_
    rw [only, List.mem_singleton]
  rw [single, key]
  rfl

/-- **Every page is found under the collection.** -/
theorem entry_of_page (crawled : Crawled r e web pageCache events pool)
    (indexed : Indexed r base pool updates)
    (returned : Returned (Indexes.ofUpdates loc ell updates) (asked base ell) results)
    {page : Page Url} (inside : page ∈ site e web pool) :
    ∃ entry ∈ results, entry.id = ell.transform (r.swarm.toString page.url) := by
  refine returned.complete (List.cons_ne_nil _ _) _ fun index requested => ?_
  rw [List.mem_singleton] at requested
  obtain ⟨update, member, key⟩ := update_of_page crawled indexed inside
  obtain ⟨-, -, -, filed, -⟩ := page_of_update crawled indexed member
  obtain ⟨newest, same⟩ : ∃ newest,
      lastIndexed loc ell updates (ell.transform update.key) = some newest :=
    exists_lastIndexed member (by simp [filed])
  obtain ⟨-, -, -, named, -⟩ := page_of_update crawled indexed (mem_of_lastIndexed same).1
  rw [key] at same
  refine mem_ids_ofUpdates.mpr ⟨newest, same, mem_ids.mpr ⟨newest.baseIndex, ?_, .inr ⟨?_, rfl⟩⟩⟩
  · rw [requested, named]
  · simp [named]

/-- **The records found under the collection** are those of the pages. -/
theorem collected (crawled : Crawled r e web pageCache events pool)
    (indexed : Indexed r base pool updates) (separate : Separate r base loc ell (site e web pool))
    (returned : Returned (Indexes.ofUpdates loc ell updates) (asked base ell) results)
    (once : AnsweredOnce results) :
    PrintsSite r (site e web pool) (fun page => r.swarm.toString page.url)
      (documentReader results) := by
  have recorded : ∀ entry ∈ results, _ := fun _ found =>
    record_of_entry crawled indexed separate returned once found
  obtain ⟨docs, files, ids⟩ : ∃ docs : List Document, payloads results = docs.map packDocument ∧
      docs.map (fun doc => ell.transform doc.key) = results.map Entry.id := by
    refine exists_recorded fun entry found => ?_
    obtain ⟨page, -, ts, own, one⟩ := recorded entry found
    exact ⟨_, one, own⟩
  have printed : documentReader results = (docs, none) := by
    rw [documentReader, files, unpackAll_packed]
  -- a document was unpacked exactly if an entry holds it
  have holds : ∀ doc, doc ∈ docs ↔ ∃ entry ∈ results,
      packDocument doc ∈ entry.indexes.map Prod.snd := by
    intro doc
    rw [← List.mem_map_of_injective packDocument_injective, ← files, payloads, List.mem_flatMap]
  rw [printed]
  refine ⟨rfl, ?_, fun key data => ?_⟩
  · refine .of_map ell.transform ?_
    rw [List.map_map]
    exact ids ▸ once.ids
  · constructor
    · rintro ⟨ts, member⟩
      obtain ⟨entry, found, held⟩ := (holds _).mp member
      obtain ⟨page, inside, _, -, one⟩ := recorded entry found
      rw [one, List.mem_singleton] at held
      cases packDocument_injective held
      exact ⟨page, inside, rfl, rfl⟩
    · rintro ⟨page, inside, rfl, rfl⟩
      obtain ⟨entry, found, own⟩ := entry_of_page crawled indexed returned inside
      obtain ⟨other, known, ts, same, one⟩ := recorded entry found
      have url := separate.keys other known page inside (same.trans own)
      refine ⟨ts, (holds _).mpr ⟨entry, found, ?_⟩⟩
      rw [one, url]
      exact List.mem_singleton.mpr rfl

/-- **What is read by the keys collected**, where every page of the site is stored. -/
theorem iterator_prints {site : Set (Page Url)} {names content : Page Url → Str}
    {held : Str → Option DataPointer} {bulkRead : List Str → List DataPointer}
    (found : PrintsSite r site names (documentReader results)) (reads : BulkReads held bulkRead)
    (stored : ∀ page ∈ site, ∃ ts, held (r.swarm.toString page.url) =
      some (packDocument ⟨ts, r.swarm.toString page.url, content page⟩)) :
    PrintsSite r site content (iterator bulkRead results) := by
  obtain ⟨clean, once, exact⟩ := found
  rw [documentReader] at clean once exact
  have printed : iterator bulkRead results =
      unpackAll (bulkRead ((unpackAll (payloads results)).1.map Document.key)) := by
    rw [iterator]
    split
    · rename_i thrown same
      rw [same] at clean
      cases clean
    · rename_i docs same
      rw [same]
  have pages : ∀ key, key ∈ (unpackAll (payloads results)).1.map Document.key ↔
      ∃ page ∈ site, r.swarm.toString page.url = key := by
    intro key
    rw [List.mem_map]
    constructor
    · rintro ⟨⟨ts, key, data⟩, member, rfl⟩
      obtain ⟨page, inside, same, -⟩ := (exact key data).mp ⟨ts, member⟩
      exact ⟨page, inside, same⟩
    · rintro ⟨page, inside, rfl⟩
      obtain ⟨ts, member⟩ := (exact _ (names page)).mpr ⟨page, inside, rfl, rfl⟩
      exact ⟨_, member, rfl⟩
  have cached : ∀ key ∈ (unpackAll (payloads results)).1.map Document.key,
      ∃ doc, held key = some (packDocument doc) ∧ doc.key = key := by
    intro key listed
    obtain ⟨page, inside, rfl⟩ := (pages key).mp listed
    obtain ⟨ts, same⟩ := stored page inside
    exact ⟨_, same, rfl⟩
  obtain ⟨docs, files, own⟩ := exists_stored cached
  have perm := reads _ once
  rw [files] at perm
  obtain ⟨quiet, order⟩ := unpackAll_perm perm
  rw [printed]
  refine ⟨quiet, ?_, fun key data => ?_⟩
  · rw [(order.map Document.key).nodup_iff, own]
    exact once
  · constructor
    · rintro ⟨ts, member⟩
      -- the document is what is stored under a key collected
      have file := (List.mem_map_of_injective packDocument_injective).mpr (order.mem_iff.mp member)
      rw [← files, List.mem_filterMap] at file
      obtain ⟨name, listed, cached⟩ := file
      obtain ⟨page, inside, rfl⟩ := (pages name).mp listed
      obtain ⟨ts', same⟩ := stored page inside
      rw [same, Option.some_inj] at cached
      cases packDocument_injective cached
      exact ⟨page, inside, rfl, rfl⟩
    · rintro ⟨page, inside, rfl, rfl⟩
      obtain ⟨ts, same⟩ := stored page inside
      refine ⟨ts, order.mem_iff.mpr ?_⟩
      rw [← List.mem_map_of_injective packDocument_injective, ← files, List.mem_filterMap]
      exact ⟨_, (pages _).mpr ⟨page, inside, rfl⟩, same⟩

/-- **After a crawl that came to rest, both programs print one document for every page that links
lead to, and no other**: `document_reader` the page's URL, `iterator` its content as it is in the
page cache, or with `--text` the text it was indexed with. -/
theorem collection_exact (r : Rindex Url) (e : EngineData Url) (web : Web Url)
    (pageCache : Str → Option DataPointer) (events : List (FaultyAction Url))
    (pool : EnginePool Url) (crawled : Crawled r e web pageCache events pool)
    (written : ∀ event ∈ events, ∀ n, event ≠ .failWrite n) (base : Str) (updates : List Update)
    (indexed : Indexed r base pool updates) (loc : Locale) (ell : Elliptics)
    (separate : Separate r base loc ell (site e web pool)) (results : List Entry)
    (returned : Returned (Store.ofUpdates loc ell updates).indexes (asked base ell) results)
    (once : AnsweredOnce results)
    (bulkRead : (Str → Option DataPointer) → List Str → List DataPointer)
    (reads : ∀ held, BulkReads held (bulkRead held)) :
    PrintsSite r (site e web pool) (fun page => r.swarm.toString page.url)
      (documentReader results) ∧
    PrintsSite r (site e web pool) Page.data
      (iterator (bulkRead pool.shared.pageCache) results) ∧
    PrintsSite r (site e web pool) (indexedText r e web)
      (iterator (bulkRead (Store.ofUpdates loc ell updates).text) results) := by
  rw [Store.indexes_ofUpdates] at returned
  have found := collected crawled indexed separate returned once
  refine ⟨found, iterator_prints found (reads _) fun page inside => ?_,
    iterator_prints found (reads _) fun page inside => text_of_page crawled indexed inside⟩
  have swarm := engine_swarm crawled.made
  have mirrored : EngineData.Mirrored e web pool.shared.log
      (r.swarm.toString page.url, page.data) := by
    obtain ⟨url, reached, rfl⟩ := inside
    rw [← swarm]
    exact ⟨url, reached, Set.mem_insert _ _⟩
  obtain ⟨doc, cached, -, key, content⟩ := EngineData.cached_of_mirrored
    (swarm ▸ crawled.injective) (engine_ignores crawled.made) crawled.old
    (crawled.run.allowed written) crawled.quiet crawled.answered mirrored
  refine ⟨doc.ts, ?_⟩
  rw [cached, ← key, ← content]

end Collection

/-! ### The site of one page -/

namespace TextPage

theorem separate : Separate rindex ['h'] .ascii .plain (site crawler textWeb (endState runs)) where
  collection := by
    intro page inside
    rw [site_subset inside]
    decide +kernel
  keys := distinct.keys

/-- What is found under its collection. -/
def results : List Entry :=
  findAllIndexes .ascii .plain updates (asked ['h'] .plain)

theorem once : AnsweredOnce results := ⟨by decide +kernel, by decide +kernel⟩

end TextPage

/-- Its one page is printed, with its content. -/
theorem collection_exact_textPage :
    ∃ ts, ⟨ts, TextPage.start, TextPage.text⟩ ∈
      (iterator (fun keys => keys.filterMap (endState TextPage.runs).shared.pageCache)
        TextPage.results).1 :=
  ((collection_exact TextPage.rindex TextPage.crawler TextPage.textWeb (fun _ => none)
    TextPage.events (endState TextPage.runs) TextPage.crawled (by simp [TextPage.events]) ['h']
    TextPage.updates TextPage.indexed .ascii .plain TextPage.separate TextPage.results
    (by
      rw [Store.indexes_ofUpdates]
      exact returned_findAllIndexes _ _ _ _) TextPage.once
    (fun held keys => keys.filterMap held) fun _ _ _ => .refl _).2.1.exact _ _).mpr
    ⟨TextPage.textWeb.page TextPage.start, TextPage.start_mem, rfl, rfl⟩

end Rindex

end Wookie
