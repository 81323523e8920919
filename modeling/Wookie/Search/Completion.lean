/-
**A search completes.**

The base index and the tokens share one space of names, and the base index holds a packed
`document`. A query whose words meet the base index of an object that carries them all is handed
that record; the `index_data` reader throws, and `m_completion` is never called.

* `search_completes_iff` — **a search completes exactly once, without a throw, exactly if no object
  that carries all the indexes asked for has its base index among them.**
* `search_never_completes` — a document whose base index is a word of the query.
-/

import Wookie.Search.Find

namespace Wookie.FindResult

/-- The answer is handled as it should: every payload is index data, nothing is thrown, and the
completion is called once, so that the waiting constructor goes on. -/
structure Completes (request : FindRequest) (result : List Entry) : Prop where
  decodes : ∀ entry ∈ result, ∀ index ∈ entry.indexes, IsIndexData index.2
  quiet : (onResultReady request result none .new).2 = none
  once : (onResultReady request result none .new).1.completions = 1
  ready : (onResultReady request result none .new).1.ready = true

/-- Where every payload is index data, the search completes. -/
theorem Completes.of_decodes {request : FindRequest} {result : List Entry}
    (decodes : ∀ entry ∈ result, ∀ index ∈ entry.indexes, IsIndexData index.2) :
    Completes request result := by
  have quiet := (scanEntries_spec request decodes []).1
  cases empty : result.isEmpty with
  | true =>
    refine ⟨decodes, ?_, ?_, ?_⟩ <;>
      simp only [onResultReady, empty, Bool.or_true, if_true, State.complete, State.new]
  | false =>
    refine ⟨decodes, ?_, ?_, ?_⟩ <;>
      simp only [onResultReady, empty, Option.isSome_none, Bool.or_false, Bool.false_eq_true,
        if_false, State.new, quiet, State.complete]

/-- **A payload that does not decode ends the search before its completion.** -/
theorem never_completes {request : FindRequest} {result : List Entry} {entry : Entry}
    {index : RawId × DataPointer} {thrown : ConvertError} (listed : entry ∈ result)
    (member : index ∈ entry.indexes) (rejected : IndexData.ofData index.2 = .error thrown) :
    (onResultReady request result none .new).2 ≠ none ∧
      (onResultReady request result none .new).1.completions = 0 ∧
      (onResultReady request result none .new).1.ready = false := by
  have nonempty : result.isEmpty = false := by
    cases result with
    | nil => cases listed
    | cons first rest => rfl
  obtain ⟨why, failed⟩ := Option.ne_none_iff_exists'.mp
    (scanEntries_throws request [] ⟨entry, listed, positions_error member rejected⟩)
  simp only [onResultReady, nonempty, Option.isSome_none, Bool.or_false, Bool.false_eq_true,
    if_false, State.new, failed]
  simp

/-- The update sets all the indexes asked for. -/
def Update.Carries (loc : Locale) (ell : Elliptics) (update : Update) (requested : List RawId) :
    Prop :=
  ∀ index ∈ requested, index ∈ update.ids loc ell

/-- No object that carries all the indexes asked for has its base index among them. -/
def NoBaseAsked (loc : Locale) (ell : Elliptics) (updates : List Update) (requested : List RawId) :
    Prop :=
  ∀ id update, lastIndexed loc ell updates id = some update →
    Update.Carries loc ell update requested →
    update.baseIndex = [] ∨ ell.transform update.baseIndex ∉ requested

section Completion

variable {loc : Locale} {ell : Elliptics} {updates : List Update} {requested : List RawId}
  {result : List Entry}

/-- Without a base index among the indexes asked for, every payload answered is index data. -/
theorem decodes_of_noBaseAsked
    (returned : Returned (Indexes.ofUpdates loc ell updates) requested result)
    (noBase : NoBaseAsked loc ell updates requested) :
    ∀ entry ∈ result, ∀ index ∈ entry.indexes, IsIndexData index.2 := by
  intro entry listed index member
  obtain ⟨held, asked⟩ := (returned.indexes_iff entry listed index).mp member
  obtain ⟨update, newest, set⟩ := mem_ofUpdates.mp held
  obtain ⟨name, same, record | ⟨named, rfl, -⟩⟩ := mem_indexSet set
  · obtain ⟨idata, packed, -⟩ := record.packed
    exact ⟨idata, packed⟩
  · have carries : Update.Carries loc ell update requested := by
      intro other requested
      obtain ⟨update', newest', own⟩ :=
        mem_ids_ofUpdates.mp (returned.carries entry listed other requested)
      rw [newest] at newest'
      cases newest'
      exact own
    rcases noBase entry.id update newest carries with empty | spared
    · exact absurd empty named
    · exact absurd (same ▸ asked) spared

/-- **A search completes exactly if no base index of an object found is asked for.** -/
theorem search_completes_iff (loc : Locale) (ell : Elliptics) (updates : List Update) (text : Str)
    {request : FindRequest} {names : List Str} {result : List Entry}
    (answered : Answered loc ell (Indexes.ofUpdates loc ell updates) text request names result) :
    Completes request result ↔ NoBaseAsked loc ell updates (transformTokens ell names) := by
  constructor
  · intro completes id update newest carries
    by_contra base
    obtain ⟨named, asked⟩ := not_or.mp base
    have asked := not_not.mp asked
    have some : transformTokens ell names ≠ [] := List.ne_nil_of_mem asked
    obtain ⟨entry, listed, rfl⟩ := answered.returned.complete some id fun index requested =>
      mem_ids_ofUpdates.mpr ⟨update, newest, carries index requested⟩
    have member := (answered.returned.indexes_iff entry listed _).mpr
      ⟨mem_ofUpdates.mpr ⟨update, newest, base_mem_indexSet named⟩, asked⟩
    exact (never_completes listed member (ofData_packDocument _)).1 completes.quiet
  · exact fun noBase => .of_decodes (decodes_of_noBaseAsked answered.returned noBase)

end Completion

/-! ### A base index that is a word -/

/-- One document, filed under a base index that is an ordinary word. -/
def filed : List Update := [⟨['k'], ['a', ' ', 'b'], ⟨7, 0⟩, ['c']⟩]

/-- A query for its words completes. -/
theorem search_completes_iff_filed :
    Completes ⟨[], ['b'], [['b']]⟩ (findAllIndexes .ascii .plain filed
        (transformTokens .plain [['b']])) ↔
      NoBaseAsked .ascii .plain filed (transformTokens .plain [['b']]) :=
  search_completes_iff .ascii .plain filed ['b'] ⟨rfl, returned_findAllIndexes _ _ _ _⟩

/-- **A query for the base index never completes.** -/
theorem search_never_completes :
    ∃ result, Answered .ascii .plain (Indexes.ofUpdates .ascii .plain filed) ['c']
        ⟨[], ['c'], [['c']]⟩ [['c']] result ∧
      (onResultReady ⟨[], ['c'], [['c']]⟩ result none .new).2 =
        some (.version "index data" IndexData.version Document.version) ∧
      (onResultReady ⟨[], ['c'], [['c']]⟩ result none .new).1.completions = 0 ∧
      (onResultReady ⟨[], ['c'], [['c']]⟩ result none .new).1.ready = false :=
  ⟨findAllIndexes .ascii .plain filed (transformTokens .plain [['c']]),
    ⟨rfl, returned_findAllIndexes _ _ _ _⟩, by decide +kernel, by decide +kernel, by decide +kernel⟩

end Wookie.FindResult
