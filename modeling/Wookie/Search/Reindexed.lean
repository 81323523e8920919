/-
**Search over documents that are indexed again.**

`set_indexes` replaces the whole index set of a key, and files the document under its base index as
well. So whatever was indexed how often in what order, a search is about the content each object was
last indexed with.

* `Apart` — no two words of the query or of an indexed content share a raw id.
* `carries_iff` — an object carries all the indexes asked for exactly if the content last indexed
  has all the words of the query.
* `Has` — what a search looks for: of a phrase, each word at its first place only. `has_iff_matches`
  — where the phrase repeats no word, that is the phrase.
* `search_follows_updates` — **the search completes, and finds exactly the objects whose content,
  as last indexed, has this.**
-/

import Wookie.Search.Completion
import Wookie.Search.Phrase

namespace Wookie.FindResult

/-- **No two words that the search is about share a raw id.** -/
def Apart (loc : Locale) (ell : Elliptics) (query : Query) (updates : List Update) : Prop :=
  ∀ word ∈ query.words loc, ∀ other, (other ∈ query.words loc ∨
    ∃ update ∈ updates, other ∈ loc.words update.content) →
      ell.transform word = ell.transform other → word = other

/-- **What a search looks for**: the words of the query, and those of the phrase one behind the
other, where a word that the phrase repeats stands at its first place only. -/
def Has (loc : Locale) (query : Query) (content : Str) : Prop :=
  (∀ word ∈ query.words loc, word ∈ loc.words content) ∧
    ∀ phrase, query.quoted = some phrase → (loc.words phrase).eraseDups <:+: loc.words content

/-- The phrase of the query repeats no word. -/
def NoRepeats (loc : Locale) (query : Query) : Prop :=
  ∀ phrase, query.quoted = some phrase → (loc.words phrase).Nodup

/-- Where the phrase repeats no word, a content has what a search looks for exactly if it matches.
-/
theorem has_iff_matches {loc : Locale} {query : Query} {content : Str}
    (distinct : NoRepeats loc query) : Has loc query content ↔ Matches loc query content := by
  constructor
  · rintro ⟨all, stands⟩
    refine ⟨fun word member => all word (List.mem_append_right _ member), fun phrase quoted => ?_⟩
    rw [← eraseDups_of_nodup (distinct phrase quoted)]
    exact stands phrase quoted
  · intro matched
    refine ⟨matched.all_words, fun phrase quoted => ?_⟩
    rw [eraseDups_of_nodup (distinct phrase quoted)]
    exact matched.2 phrase quoted

section Updates

variable {loc : Locale} {ell : Elliptics} {query : Query} {updates : List Update}
  {update : Update} {id : RawId} {result : List Entry}

/-- The base index of the update is not asked for. -/
def Unasked (loc : Locale) (ell : Elliptics) (query : Query) (update : Update) : Prop :=
  update.baseIndex = [] ∨ ell.transform update.baseIndex ∉ transformTokens ell (query.names loc)

/-- A name of a word of the query, set by an update, is that word. -/
theorem word_of_name (apart : Apart loc ell query updates) (listed : update ∈ updates)
    (unasked : Unasked loc ell query update) {word name : Str} (asked : word ∈ query.words loc)
    (same : ell.transform name = ell.transform word)
    (set : name ∈ loc.words update.content ∨ update.baseIndex ≠ [] ∧ name = update.baseIndex) :
    word ∈ loc.words update.content := by
  rcases set with member | ⟨named, rfl⟩
  · rwa [apart word asked name (.inr ⟨update, listed, member⟩) same.symm]
  · rcases unasked with empty | spared
    · exact absurd empty named
    · exact absurd (mem_asked.mpr ⟨word, asked, same.symm⟩) spared

/-- **All the indexes asked for are carried exactly by a content with all the words.** -/
theorem carries_iff (apart : Apart loc ell query updates) (listed : update ∈ updates)
    (noBase : Update.Carries loc ell update (transformTokens ell (query.names loc)) →
      Unasked loc ell query update) :
    Update.Carries loc ell update (transformTokens ell (query.names loc)) ↔
      ∀ word ∈ query.words loc, word ∈ loc.words update.content := by
  constructor
  · intro carries word asked
    obtain ⟨name, same, set⟩ := mem_ids.mp (carries _ (mem_asked.mpr ⟨word, asked, rfl⟩))
    exact word_of_name apart listed (noBase carries) asked same set
  · intro all index requested
    obtain ⟨word, asked, rfl⟩ := mem_asked.mp requested
    exact mem_ids.mpr ⟨word, rfl, .inl (all word asked)⟩

/-- What an object holds under the index of a word is the word's record. -/
theorem record_of_held (apart : Apart loc ell query updates)
    (newest : lastIndexed loc ell updates id = some update) (unasked : Unasked loc ell query update)
    {index : RawId × DataPointer} (held : index ∈ Indexes.ofUpdates loc ell updates id)
    {word : Str} (asked : word ∈ query.words loc) (same : ell.transform word = index.1) :
    IsTokenRecord loc update.content word index.2 := by
  obtain ⟨update', newest', set⟩ := mem_ofUpdates.mp held
  rw [newest] at newest'
  cases newest'
  obtain ⟨name, own, record | ⟨named, rfl, -⟩⟩ := mem_indexSet set
  · have listed := (mem_of_lastIndexed newest).1
    rwa [apart word asked name (.inr ⟨update, listed, record.word⟩) (same.trans own.symm)]
  · rcases unasked with empty | spared
    · exact absurd empty named
    · exact absurd (mem_asked.mpr ⟨word, asked, same.trans own.symm⟩) spared

/-- **The position map of an entry** is the layout of the query's words in the content last indexed.
-/
theorem positions_lastIndexed (apart : Apart loc ell query updates)
    (newest : lastIndexed loc ell updates id = some update) (unasked : Unasked loc ell query update)
    (returned : Returned (Indexes.ofUpdates loc ell updates)
      (transformTokens ell (query.names loc)) result)
    {entry : Entry} (answered : entry ∈ result) (own : entry.id = id) :
    ∃ pos, positions entry = .ok pos ∧
      ∀ p id, pos[p]? = some id ↔ Layout loc ell query update.content p id := by
  -- a stored index that was asked for holds the places of one word of the query
  have record : ∀ index ∈ entry.indexes, ∃ word ∈ query.words loc, ell.transform word = index.1 ∧
      IsTokenRecord loc update.content word index.2 := by
    intro index member
    obtain ⟨held, requested⟩ := (returned.indexes_iff entry answered index).mp member
    obtain ⟨word, asked, same⟩ := mem_asked.mp requested
    exact ⟨word, asked, same, record_of_held apart newest unasked (own ▸ held) asked same⟩
  have packed : ∀ index ∈ entry.indexes, IsIndexData index.2 := by
    intro index member
    obtain ⟨word, -, -, record⟩ := record index member
    obtain ⟨idata, packed, -⟩ := record.packed
    exact ⟨idata, packed⟩
  have inside : ∀ index ∈ entry.indexes, ∀ p ∈ positionsOf index.2,
      Layout loc ell query update.content p index.1 := by
    intro index member p at_p
    obtain ⟨word, asked, same, record⟩ := record index member
    obtain ⟨n, rfl, found⟩ := (mem_positionsOf_record record).mp at_p
    exact ⟨n, word, rfl, found, asked, same⟩
  have functional : ∀ p a b, Layout loc ell query update.content p a →
      Layout loc ell query update.content p b → a = b := by
    rintro p a b ⟨n, word, rfl, found, -, rfl⟩ ⟨m, other, same, found', -, rfl⟩
    cases Int.ofNat_inj.mp same
    rw [found] at found'
    cases found'
    rfl
  obtain ⟨pos, read, at_iff⟩ := positions_agrees functional packed inside
  refine ⟨pos, read, fun p place => ?_⟩
  rw [at_iff]
  constructor
  · rintro ⟨index, member, rfl, at_p⟩
    exact inside index member p at_p
  · rintro ⟨n, word, rfl, found, asked, rfl⟩
    have requested : ell.transform word ∈ transformTokens ell (query.names loc) :=
      mem_asked.mpr ⟨word, asked, rfl⟩
    obtain ⟨index, held, same⟩ := List.mem_map.mp (returned.carries entry answered _ requested)
    have member := (returned.indexes_iff entry answered index).mpr ⟨held, same ▸ requested⟩
    have record := record_of_held apart newest unasked (own ▸ held) asked same.symm
    exact ⟨index, member, same, (mem_positionsOf_record record).mpr ⟨n, rfl, found⟩⟩

/-- **An object is answered exactly if the content last indexed has all the words of the query.** -/
theorem entry_lastIndexed_iff (apart : Apart loc ell query updates) (hasWord : query.words loc ≠ [])
    (noBase : NoBaseAsked loc ell updates (transformTokens ell (query.names loc)))
    (returned : Returned (Indexes.ofUpdates loc ell updates)
      (transformTokens ell (query.names loc)) result) :
    (∃ entry ∈ result, entry.id = id) ↔ ∃ update, lastIndexed loc ell updates id = some update ∧
      ∀ word ∈ query.words loc, word ∈ loc.words update.content := by
  obtain ⟨word, asked⟩ := List.exists_mem_of_ne_nil _ hasWord
  have some : ell.transform word ∈ transformTokens ell (query.names loc) :=
    mem_asked.mpr ⟨word, asked, rfl⟩
  constructor
  · rintro ⟨entry, answered, rfl⟩
    have carried := fun index requested =>
      mem_ids_ofUpdates.mp (returned.carries entry answered index requested)
    obtain ⟨update, newest, -⟩ := carried _ some
    have carries : Update.Carries loc ell update (transformTokens ell (query.names loc)) := by
      intro index requested
      obtain ⟨update', newest', set⟩ := carried index requested
      rw [newest] at newest'
      cases newest'
      exact set
    exact ⟨update, newest, (carries_iff apart (mem_of_lastIndexed newest).1
      (noBase entry.id update newest)).mp carries⟩
  · rintro ⟨update, newest, all⟩
    refine returned.complete (List.ne_nil_of_mem some) id fun index requested => ?_
    obtain ⟨word, asked, rfl⟩ := mem_asked.mp requested
    exact mem_ids_ofUpdates.mpr ⟨update, newest, mem_ids.mpr ⟨word, rfl, .inl (all word asked)⟩⟩

/-- Where no base index is asked for, the search completes. -/
theorem completes_of_noBaseAsked {request : FindRequest} {names : List Str}
    (answered : Answered loc ell (Indexes.ofUpdates loc ell updates) query.text request names
      result)
    (noBase : NoBaseAsked loc ell updates (transformTokens ell (query.names loc))) :
    Completes request result := by
  obtain ⟨found, returned⟩ := answered
  rw [find_query] at found
  cases found
  exact .of_decodes (decodes_of_noBaseAsked returned noBase)

/-- **What a search finds** are the objects whose content last indexed has what the query asks for.
-/
theorem found_iff_lastIndexed (hasWord : query.words loc ≠ []) (apart : Apart loc ell query updates)
    {request : FindRequest} {names : List Str}
    (answered : Answered loc ell (Indexes.ofUpdates loc ell updates) query.text request names
      result)
    (noBase : NoBaseAsked loc ell updates (transformTokens ell (query.names loc))) :
    id ∈ (onResultReady request result none .new).1.resultIds ↔
      ∃ update, lastIndexed loc ell updates id = some update ∧ Has loc query update.content := by
  obtain ⟨found, returned⟩ := answered
  rw [find_query] at found
  cases found
  have decodes := decodes_of_noBaseAsked returned noBase
  have injective : ∀ v ∈ query.words loc, ∀ w ∈ query.words loc,
      ell.transform v = ell.transform w → v = w := fun v left w right => apart v left w (.inl right)
  obtain ⟨word, asked⟩ := List.exists_mem_of_ne_nil _ hasWord
  -- what the position map of an entry says of the quotes
  have quotes : ∀ entry ∈ result, ∀ update, lastIndexed loc ell updates entry.id = some update →
      (∀ word ∈ query.words loc, word ∈ loc.words update.content) →
      ∃ pos, positions entry = .ok pos ∧
        (allQuotesOk (query.request loc ell) pos = true ↔ ∀ phrase, query.quoted = some phrase →
          (loc.words phrase).eraseDups <:+: loc.words update.content) := by
    intro entry member update newest all
    have carries := (carries_iff apart (mem_of_lastIndexed newest).1
      (noBase entry.id update newest)).mpr all
    obtain ⟨pos, read, at_iff⟩ := positions_lastIndexed apart newest
      (noBase entry.id update newest carries) returned member rfl
    refine ⟨pos, read, ?_⟩
    rw [allQuotesOk_iff]
    exact forall_congr' fun phrase => forall_congr' fun quoted =>
      matchQuote_layout at_iff injective ⟨word, asked, all word asked⟩
        fun word member => mem_words_of_quoted quoted member
  rw [resultIds_onResultReady, (scanEntries_spec _ decodes []).2, or_iff_right List.not_mem_nil]
  constructor
  · rintro ⟨entry, member, rfl, pos, read, ok⟩
    obtain ⟨update, newest, all⟩ :=
      (entry_lastIndexed_iff apart hasWord noBase returned).mp ⟨entry, member, rfl⟩
    obtain ⟨pos', read', iff⟩ := quotes entry member update newest all
    rw [read] at read'
    cases read'
    exact ⟨update, newest, all, iff.mp ok⟩
  · rintro ⟨update, newest, all, stands⟩
    obtain ⟨entry, member, rfl⟩ :=
      (entry_lastIndexed_iff apart hasWord noBase returned).mpr ⟨update, newest, all⟩
    obtain ⟨pos, read, iff⟩ := quotes entry member update newest all
    exact ⟨entry, member, rfl, pos, read, iff.mpr stands⟩

end Updates

/-- **A search is about the contents last indexed.** Where no base index of an object found is asked
for, it completes, and the ids it finds are those of the objects whose last update with any index
has the words of the query and those of its phrase, each of these once, one behind the other. Where
the phrase repeats no word, it has the words and the phrase. -/
theorem search_follows_updates (loc : Locale) (ell : Elliptics) (updates : List Update)
    (query : Query) (hasWord : query.words loc ≠ []) (apart : Apart loc ell query updates)
    {request : FindRequest} {names : List Str} {result : List Entry}
    (answered : Answered loc ell (Indexes.ofUpdates loc ell updates) query.text request names
      result)
    (noBase : NoBaseAsked loc ell updates (transformTokens ell (query.names loc))) :
    Completes request result ∧
      (∀ id, id ∈ (onResultReady request result none .new).1.resultIds ↔
        ∃ update, lastIndexed loc ell updates id = some update ∧ Has loc query update.content) ∧
      (NoRepeats loc query → ∀ id,
        id ∈ (onResultReady request result none .new).1.resultIds ↔
          ∃ update, lastIndexed loc ell updates id = some update ∧
            Matches loc query update.content) := by
  have found : ∀ id, id ∈ (onResultReady request result none .new).1.resultIds ↔
      ∃ update, lastIndexed loc ell updates id = some update ∧ Has loc query update.content :=
    fun _ => found_iff_lastIndexed hasWord apart answered noBase
  refine ⟨completes_of_noBaseAsked answered noBase, found, fun distinct id => (found id).trans ?_⟩
  exact exists_congr fun update => and_congr_right fun _ => has_iff_matches distinct

/-! ### A document indexed twice -/

/-- The second time with another content. -/
def indexedTwice : List Update :=
  [⟨['k'], ['c'], ⟨7, 0⟩, ['z']⟩, ⟨['k'], ['a', ' ', 'b', ' ', 'c'], ⟨8, 0⟩, ['z']⟩]

theorem indexedTwice_apart : Apart .ascii .plain twoWords indexedTwice := by
  have known : ∀ other, (other ∈ twoWords.words .ascii ∨
      ∃ update ∈ indexedTwice, other ∈ Locale.ascii.words update.content) →
        other ∈ [['a'], ['b'], ['c']] := by
    rintro other (asked | ⟨update, listed, member⟩)
    · revert asked
      exact List.forall_iff_forall_mem.mp (by decide +kernel) other
    · revert member
      simp only [indexedTwice, List.mem_cons, List.not_mem_nil, or_false] at listed
      rcases listed with rfl | rfl
      · exact List.forall_iff_forall_mem.mp (by decide +kernel) other
      · exact List.forall_iff_forall_mem.mp (by decide +kernel) other
  have distinct : ∀ v ∈ [['a'], ['b'], ['c']], ∀ w ∈ [['a'], ['b'], ['c']],
      Elliptics.plain.transform v = Elliptics.plain.transform w → v = w := by decide +kernel
  exact fun word asked other concerned same =>
    distinct word (known word (.inl asked)) other (known other concerned) same

theorem noRepeats_twoWords : NoRepeats .ascii twoWords := by
  intro phrase quoted
  cases quoted
  decide +kernel

/-- It is found by what it was indexed with last. -/
theorem search_follows_updates_indexedTwice :
    Elliptics.plain.transform ['k'] ∈ (onResultReady (twoWords.request .ascii .plain)
        (findAllIndexes .ascii .plain indexedTwice
          (transformTokens .plain (twoWords.names .ascii))) none .new).1.resultIds ↔
      ∃ update,
        lastIndexed .ascii .plain indexedTwice (Elliptics.plain.transform ['k']) = some update ∧
        Matches .ascii twoWords update.content :=
  (search_follows_updates .ascii .plain indexedTwice twoWords (by decide +kernel)
    indexedTwice_apart ⟨find_query _ _ _, returned_findAllIndexes _ _ _ _⟩ (by
      intro id update newest _
      have filed : ∀ update ∈ indexedTwice, Elliptics.plain.transform update.baseIndex ∉
          transformTokens .plain (twoWords.names .ascii) := by decide +kernel
      exact .inr (filed update (mem_of_lastIndexed newest).1))).2.2 noRepeats_twoWords _

end Wookie.FindResult
