/-
**Phrase search.**

`split::feed` hands out every token once, so a quote is matched by the words of its phrase without
their repetitions. A phrase of distinct words is found where it stands, and only there; a phrase
that repeats a word is looked for in another form.

* `mem_resultIds_iff` — a document is found exactly if it has all the words of the query, and the
  words of the phrase, each once, stand in it one behind the other.
* `phrase_search_exact_iff` — **the search is exact on every collection exactly if the phrase
  repeats no word**, and on a given collection exactly if no document of it tells the two forms of
  the phrase apart.
* `phrase_not_found` — a document that is not found by its own text.
-/

import Wookie.Search.Find

namespace Wookie.FindResult

/-- The update that indexes a document under no base index. -/
def updateOf (doc : Document) : Update := ⟨doc.key, doc.data, doc.ts, []⟩

/-- The updates that index a collection. -/
def updatesOf (docs : List Document) : List Update := docs.map updateOf

/-- The words that a search in a collection is about. -/
def Involved (loc : Locale) (query : Query) (docs : List Document) (word : Str) : Prop :=
  word ∈ query.words loc ∨ ∃ doc ∈ docs, word ∈ loc.words doc.data

/-- A collection with one object for each document, where no two words involved share a raw id. -/
structure Collection (loc : Locale) (ell : Elliptics) (query : Query) (docs : List Document) :
    Prop where
  objects : (docs.map fun doc => ell.transform doc.key).Nodup
  injective : ∀ v w, Involved loc query docs v → Involved loc query docs w →
    ell.transform v = ell.transform w → v = w

/-- What the query asks of a text: every unquoted word, and the phrase word by word. -/
def Matches (loc : Locale) (query : Query) (data : Str) : Prop :=
  (∀ word ∈ loc.words query.unquoted, word ∈ loc.words data) ∧
    ∀ phrase, query.quoted = some phrase → loc.words phrase <:+: loc.words data

/-- The search finds exactly the documents that match. -/
def Exact (loc : Locale) (ell : Elliptics) (query : Query) (docs : List Document)
    (request : FindRequest) (result : List Entry) : Prop :=
  ∀ doc ∈ docs, ell.transform doc.key ∈ (onResultReady request result none .new).1.resultIds ↔
    Matches loc query doc.data

theorem nodup_eraseDups (names : List Str) : names.eraseDups.Nodup := by
  induction names using List.reverseRecOn with
  | nil => exact List.nodup_nil
  | append_singleton names name ih =>
    rw [List.eraseDups_append]
    by_cases known : name ∈ names
    · have none : [name].removeAll names = [] := by simp [List.removeAll, known]
      rw [none]
      simpa using ih
    · have new : [name].removeAll names = [name] := by simp [List.removeAll, known]
      rw [new]
      refine List.nodup_append.mpr ⟨ih, List.nodup_singleton name, ?_⟩
      rintro other member _ last rfl
      rw [List.mem_singleton.mp last] at member
      exact known (List.mem_eraseDups.mp member)

theorem eraseDups_of_nodup {names : List Str} (distinct : names.Nodup) :
    names.eraseDups = names := by
  induction names using List.reverseRecOn with
  | nil => rfl
  | append_singleton names name ih =>
    obtain ⟨front, -, apart⟩ := List.nodup_append.mp distinct
    have fresh : name ∉ names := fun member =>
      apart name member name (List.mem_singleton.mpr rfl) rfl
    have new : [name].removeAll names = [name] := by simp [List.removeAll, fresh]
    rw [List.eraseDups_append, ih front, new]
    rfl

section Collection

variable {loc : Locale} {ell : Elliptics} {query : Query} {docs : List Document} {doc : Document}

/-! ### What the store holds of a document -/

/-- The update that last set the indexes of a document's object is the document's own. -/
theorem lastIndexed_eq (objects : (docs.map fun doc => ell.transform doc.key).Nodup)
    (listed : doc ∈ docs) {update : Update}
    (newest : lastIndexed loc ell (updatesOf docs) (ell.transform doc.key) = some update) :
    update = updateOf doc := by
  obtain ⟨member, own⟩ := mem_of_lastIndexed newest
  obtain ⟨other, listed', rfl⟩ := List.mem_map.mp member
  rw [List.inj_on_of_nodup_map objects listed' listed own]

/-- **A document's object holds the document's indexes.** -/
theorem mem_store_iff (objects : (docs.map fun doc => ell.transform doc.key).Nodup)
    (listed : doc ∈ docs) {index : RawId × DataPointer} :
    index ∈ Indexes.ofUpdates loc ell (updatesOf docs) (ell.transform doc.key) ↔
      index ∈ (updateOf doc).indexSet loc ell := by
  rw [mem_ofUpdates]
  constructor
  · rintro ⟨update, newest, member⟩
    rwa [lastIndexed_eq objects listed newest] at member
  · intro member
    have some : (updateOf doc).indexes loc ≠ [] := by
      intro none
      have empty := ell.mem_of_mem_indexSet member
      rw [none] at empty
      cases empty
    have kept : updateOf doc ∈ (updatesOf docs).filter fun update =>
        ell.transform update.key == ell.transform doc.key && !(update.indexes loc).isEmpty := by
      refine List.mem_filter.mpr ⟨List.mem_map.mpr ⟨doc, listed, rfl⟩, ?_⟩
      rw [Bool.and_eq_true, beq_iff_eq, Bool.not_eq_true', List.isEmpty_eq_false_iff]
      exact ⟨rfl, some⟩
    obtain ⟨update, newest⟩ := Option.isSome_iff_exists.mp
      (List.getLast?_isSome.mpr (List.ne_nil_of_mem kept))
    refine ⟨update, newest, ?_⟩
    rwa [lastIndexed_eq objects listed newest]

/-- Everything stored for a document is a record of one of its words. -/
theorem record_of_mem_store (objects : (docs.map fun doc => ell.transform doc.key).Nodup)
    (listed : doc ∈ docs) {index : RawId × DataPointer}
    (held : index ∈ Indexes.ofUpdates loc ell (updatesOf docs) (ell.transform doc.key)) :
    ∃ word, ell.transform word = index.1 ∧ IsTokenRecord loc doc.data word index.2 := by
  obtain ⟨name, same, record | ⟨named, -, -⟩⟩ :=
    mem_indexSet ((mem_store_iff objects listed).mp held)
  · exact ⟨name, same, record⟩
  · exact absurd rfl named

/-- Every word of a document has its record. -/
theorem mem_ids_store (objects : (docs.map fun doc => ell.transform doc.key).Nodup)
    (listed : doc ∈ docs) {word : Str} (member : word ∈ loc.words doc.data) :
    ell.transform word ∈
      (Indexes.ofUpdates loc ell (updatesOf docs) (ell.transform doc.key)).map Prod.fst := by
  have set : ell.transform word ∈ ((updateOf doc).indexSet loc ell).map Prod.fst :=
    ids_indexSet.mpr (mem_ids.mpr ⟨word, rfl, .inl member⟩)
  obtain ⟨index, member, same⟩ := List.mem_map.mp set
  exact List.mem_map.mpr ⟨index, (mem_store_iff objects listed).mpr member, same⟩

/-! ### What a search finds of it -/

variable {request : FindRequest} {names : List Str} {result : List Entry}

/-- The indexes asked for are those of the query's words. -/
theorem mem_asked {index : RawId} : index ∈ transformTokens ell (query.names loc) ↔
    ∃ word ∈ query.words loc, ell.transform word = index := by
  simp only [transformTokens, List.mem_map, mem_names]

/-- **An object is answered exactly if its document has all the words of the query.** -/
theorem entry_answered_iff (collection : Collection loc ell query docs) (listed : doc ∈ docs)
    (hasWord : query.words loc ≠ [])
    (returned : Returned (Indexes.ofUpdates loc ell (updatesOf docs))
      (transformTokens ell (query.names loc)) result) :
    (∃ entry ∈ result, entry.id = ell.transform doc.key) ↔
      ∀ word ∈ query.words loc, word ∈ loc.words doc.data := by
  constructor
  · rintro ⟨entry, answered, own⟩ word asked
    have carried := returned.carries entry answered _ (mem_asked.mpr ⟨word, asked, rfl⟩)
    rw [own] at carried
    obtain ⟨index, held, same⟩ := List.mem_map.mp carried
    obtain ⟨other, id, record⟩ := record_of_mem_store collection.objects listed held
    have equal := collection.injective other word (.inr ⟨doc, listed, record.word⟩) (.inl asked)
      (id.trans same)
    exact equal ▸ record.word
  · intro all
    obtain ⟨word, asked⟩ := List.exists_mem_of_ne_nil _ hasWord
    refine returned.complete (List.ne_nil_of_mem (mem_asked.mpr ⟨word, asked, rfl⟩)) _ ?_
    intro index requested
    obtain ⟨word, asked, rfl⟩ := mem_asked.mp requested
    exact mem_ids_store collection.objects listed (all word asked)

/-- Where the words of the query stand in a text. -/
def Layout (loc : Locale) (ell : Elliptics) (query : Query) (data : Str) (p : Int) (id : RawId) :
    Prop :=
  ∃ (n : Nat) (word : Str), p = n ∧ (loc.words data)[n]? = some word ∧ word ∈ query.words loc ∧
    ell.transform word = id

/-- **The position map of an entry** is the layout of the query's words in its document. -/
theorem positions_layout (collection : Collection loc ell query docs) (listed : doc ∈ docs)
    (returned : Returned (Indexes.ofUpdates loc ell (updatesOf docs))
      (transformTokens ell (query.names loc)) result)
    {entry : Entry} (answered : entry ∈ result) (own : entry.id = ell.transform doc.key) :
    (∀ index ∈ entry.indexes, IsIndexData index.2) ∧ ∃ pos, positions entry = .ok pos ∧
      ∀ p id, pos[p]? = some id ↔ Layout loc ell query doc.data p id := by
  -- a stored index that was asked for holds the places of one word of the query
  have record : ∀ index ∈ entry.indexes, ∃ word ∈ query.words loc, ell.transform word = index.1 ∧
      IsTokenRecord loc doc.data word index.2 := by
    intro index member
    obtain ⟨held, asked⟩ := (returned.indexes_iff entry answered index).mp member
    rw [own] at held
    obtain ⟨word, same, record⟩ := record_of_mem_store collection.objects listed held
    obtain ⟨other, requested, id⟩ := mem_asked.mp asked
    have equal := collection.injective other word (.inl requested) (.inr ⟨doc, listed, record.word⟩)
      (id.trans same.symm)
    exact ⟨word, equal ▸ requested, same, record⟩
  have packed : ∀ index ∈ entry.indexes, IsIndexData index.2 := by
    intro index member
    obtain ⟨word, -, -, record⟩ := record index member
    obtain ⟨idata, packed, -⟩ := record.packed
    exact ⟨idata, packed⟩
  have inside : ∀ index ∈ entry.indexes, ∀ p ∈ positionsOf index.2,
      Layout loc ell query doc.data p index.1 := by
    intro index member p at_p
    obtain ⟨word, asked, same, record⟩ := record index member
    obtain ⟨n, rfl, found⟩ := (mem_positionsOf_record record).mp at_p
    exact ⟨n, word, rfl, found, asked, same⟩
  have functional : ∀ p a b, Layout loc ell query doc.data p a → Layout loc ell query doc.data p b →
      a = b := by
    rintro p a b ⟨n, word, rfl, found, -, rfl⟩ ⟨m, other, same, found', -, rfl⟩
    cases Int.ofNat_inj.mp same
    rw [found] at found'
    cases found'
    rfl
  obtain ⟨pos, read, at_iff⟩ := positions_agrees functional packed inside
  refine ⟨packed, pos, read, fun p id => ?_⟩
  rw [at_iff]
  constructor
  · rintro ⟨index, member, rfl, at_p⟩
    exact inside index member p at_p
  · rintro ⟨n, word, rfl, found, asked, rfl⟩
    have requested : ell.transform word ∈ transformTokens ell (query.names loc) :=
      mem_asked.mpr ⟨word, asked, rfl⟩
    obtain ⟨index, held, same⟩ := List.mem_map.mp (returned.carries entry answered _ requested)
    have member := (returned.indexes_iff entry answered index).mpr ⟨held, same ▸ requested⟩
    obtain ⟨other, asked', same', record⟩ := record index member
    have equal := collection.injective other word (.inl asked') (.inl asked) (same'.trans same)
    exact ⟨index, member, same, (mem_positionsOf_record record).mpr ⟨n, rfl, equal ▸ found⟩⟩

/-- A layout's entries in a row are words in a row. -/
theorem at_layout_iff {data : Str} {pos : Positions}
    (at_iff : ∀ p id, pos[p]? = some id ↔ Layout loc ell query data p id)
    (injective : ∀ v ∈ query.words loc, ∀ w ∈ query.words loc,
      ell.transform v = ell.transform w → v = w)
    {tokens : List Str} (asked : ∀ token ∈ tokens, token ∈ query.words loc) (n : Nat) :
    At pos.toList n (tokens.map ell.transform) ↔ tokens <+: (loc.words data).drop n := by
  induction tokens generalizing n with
  | nil => exact iff_of_true trivial List.nil_prefix
  | cons token rest ih =>
    have first : ((n : Int), ell.transform token) ∈ pos.toList ↔
        (loc.words data)[n]? = some token := by
      rw [Std.TreeMap.mem_toList_iff_getElem?_eq_some, at_iff]
      constructor
      · rintro ⟨m, word, same, found, requested, id⟩
        cases Int.ofNat_inj.mp same
        rwa [injective word requested token (asked token List.mem_cons_self) id] at found
      · exact fun found => ⟨n, token, rfl, found, asked token List.mem_cons_self, rfl⟩
    have later := ih (fun token member => asked token (List.mem_cons_of_mem _ member)) (n + 1)
    show ((n : Int), ell.transform token) ∈ pos.toList ∧ At pos.toList ((n + 1 : Nat) : Int) _ ↔ _
    rw [first, later]
    constructor
    · rintro ⟨found, tail⟩
      obtain ⟨bound, rfl⟩ := List.getElem?_eq_some_iff.mp found
      rw [List.drop_eq_getElem_cons bound]
      exact List.cons_prefix_cons.mpr ⟨rfl, tail⟩
    · intro stands
      have bound : n < (loc.words data).length := by
        by_contra beyond
        rw [List.drop_eq_nil_of_le (Nat.le_of_not_lt beyond)] at stands
        exact absurd (List.prefix_nil.mp stands) (List.cons_ne_nil _ _)
      rw [List.drop_eq_getElem_cons bound] at stands
      obtain ⟨rfl, tail⟩ := List.cons_prefix_cons.mp stands
      exact ⟨List.getElem?_eq_getElem bound, tail⟩

/-- **A quote is found exactly if its tokens stand in the text one behind the other.** -/
theorem matchQuote_layout {data : Str} {pos : Positions}
    (at_iff : ∀ p id, pos[p]? = some id ↔ Layout loc ell query data p id)
    (injective : ∀ v ∈ query.words loc, ∀ w ∈ query.words loc,
      ell.transform v = ell.transform w → v = w)
    (hasWord : ∃ word ∈ query.words loc, word ∈ loc.words data) {phrase : Str}
    (asked : ∀ word ∈ loc.words phrase, word ∈ query.words loc) :
    matchQuote (quoteOf loc ell phrase) pos.toList = true ↔
      (loc.words phrase).eraseDups <:+: loc.words data := by
  have inside : ∀ token ∈ (loc.words phrase).eraseDups, token ∈ query.words loc :=
    fun token member => asked token (List.mem_eraseDups.mp member)
  have nonneg : ∀ entry ∈ pos.toList, 0 ≤ entry.1 := by
    rintro ⟨p, id⟩ member
    obtain ⟨n, word, rfl, -⟩ :=
      (at_iff p id).mp (Std.TreeMap.mem_toList_iff_getElem?_eq_some.mp member)
    exact Int.natCast_nonneg n
  have some : pos.toList ≠ [] := by
    obtain ⟨word, requested, member⟩ := hasWord
    obtain ⟨n, found⟩ := List.mem_iff_getElem?.mp member
    exact List.ne_nil_of_mem (Std.TreeMap.mem_toList_iff_getElem?_eq_some.mpr
      ((at_iff n (ell.transform word)).mpr ⟨n, word, rfl, found, requested, rfl⟩))
  have distinct : (((loc.words phrase).eraseDups).map ell.transform).Nodup :=
    (nodup_eraseDups _).map_on fun v left w right same =>
      injective v (inside v left) w (inside w right) same
  rw [matchQuote_iff (List.length_map _) distinct (rising_toList pos) nonneg, and_iff_right some]
  constructor
  · rintro ⟨start, stands⟩
    cases shape : (loc.words phrase).eraseDups with
    | nil => exact List.nil_infix
    | cons token rest =>
      have stands' : At pos.toList start ((token :: rest).map ell.transform) := shape ▸ stands
      obtain ⟨n, rfl⟩ := Int.eq_ofNat_of_zero_le (nonneg _ stands'.1)
      rw [← shape]
      exact ((at_layout_iff at_iff injective inside n).mp stands).isInfix.trans
        (List.drop_suffix n _).isInfix
  · rintro ⟨before, after, split⟩
    refine ⟨before.length, (at_layout_iff at_iff injective inside before.length).mpr ?_⟩
    rw [← split, List.append_assoc, List.drop_left]
    exact List.prefix_append _ _

/-- Every entry answered is an object of the collection. -/
theorem doc_of_entry (hasWord : query.words loc ≠ [])
    (returned : Returned (Indexes.ofUpdates loc ell (updatesOf docs))
      (transformTokens ell (query.names loc)) result)
    {entry : Entry} (answered : entry ∈ result) :
    ∃ doc ∈ docs, entry.id = ell.transform doc.key := by
  obtain ⟨word, asked⟩ := List.exists_mem_of_ne_nil _ hasWord
  obtain ⟨update, newest, -⟩ := mem_ids_ofUpdates.mp
    (returned.carries entry answered _ (mem_asked.mpr ⟨word, asked, rfl⟩))
  obtain ⟨member, own⟩ := mem_of_lastIndexed newest
  obtain ⟨doc, listed, rfl⟩ := List.mem_map.mp member
  exact ⟨doc, listed, own.symm⟩

/-- The quoted words are words of the query. -/
theorem mem_words_of_quoted {phrase word : Str} (quoted : query.quoted = some phrase)
    (member : word ∈ loc.words phrase) : word ∈ query.words loc := by
  rw [Query.words, quoted]
  exact List.mem_append_left _ (by simpa using member)

/-- All quotes of a query are the one of its phrase. -/
theorem allQuotesOk_iff {pos : Positions} :
    allQuotesOk (query.request loc ell) pos = true ↔
      ∀ phrase, query.quoted = some phrase →
        matchQuote (quoteOf loc ell phrase) pos.toList = true := by
  rw [allQuotesOk, Query.request]
  cases query.quoted with
  | none => simp
  | some phrase => simp

/-- **A document is found exactly if it has all the words of the query**, and the words of the
phrase, each once, stand in it one behind the other. -/
theorem mem_resultIds_iff (collection : Collection loc ell query docs) (listed : doc ∈ docs)
    (hasWord : query.words loc ≠ [])
    (answered : Answered loc ell (Indexes.ofUpdates loc ell (updatesOf docs)) query.text request
      names result) :
    ell.transform doc.key ∈ (onResultReady request result none .new).1.resultIds ↔
      (∀ word ∈ query.words loc, word ∈ loc.words doc.data) ∧
        ∀ phrase, query.quoted = some phrase →
          (loc.words phrase).eraseDups <:+: loc.words doc.data := by
  obtain ⟨found, returned⟩ := answered
  rw [find_query] at found
  cases found
  have decodes : ∀ entry ∈ result, ∀ index ∈ entry.indexes, IsIndexData index.2 := by
    intro entry member
    obtain ⟨doc, listed, own⟩ := doc_of_entry hasWord returned member
    exact (positions_layout collection listed returned member own).1
  have injective : ∀ v ∈ query.words loc, ∀ w ∈ query.words loc,
      ell.transform v = ell.transform w → v = w := fun v left w right =>
    collection.injective v w (.inl left) (.inl right)
  -- in a document with all the words, the quotes are found as the layout says
  have quotes : (∀ word ∈ query.words loc, word ∈ loc.words doc.data) → ∀ pos : Positions,
      (∀ p id, pos[p]? = some id ↔ Layout loc ell query doc.data p id) →
      (allQuotesOk (query.request loc ell) pos = true ↔ ∀ phrase, query.quoted = some phrase →
        (loc.words phrase).eraseDups <:+: loc.words doc.data) := by
    intro all pos at_iff
    obtain ⟨word, asked⟩ := List.exists_mem_of_ne_nil _ hasWord
    rw [allQuotesOk_iff]
    exact forall_congr' fun phrase => forall_congr' fun quoted =>
      matchQuote_layout at_iff injective ⟨word, asked, all word asked⟩
        fun word member => mem_words_of_quoted quoted member
  rw [resultIds_onResultReady, (scanEntries_spec _ decodes []).2, or_iff_right List.not_mem_nil,
    ← entry_answered_iff collection listed hasWord returned]
  constructor
  · rintro ⟨entry, member, own, pos, read, ok⟩
    have all := (entry_answered_iff collection listed hasWord returned).mp ⟨entry, member, own⟩
    obtain ⟨-, pos', read', at_iff⟩ := positions_layout collection listed returned member own
    rw [read] at read'
    cases read'
    exact ⟨⟨entry, member, own⟩, (quotes all pos at_iff).mp ok⟩
  · rintro ⟨⟨entry, member, own⟩, stands⟩
    have all := (entry_answered_iff collection listed hasWord returned).mp ⟨entry, member, own⟩
    obtain ⟨-, pos, read, at_iff⟩ := positions_layout collection listed returned member own
    exact ⟨entry, member, own, pos, read, (quotes all pos at_iff).mpr stands⟩

/-! ### Exactness -/

/-- A text that matches has all the words of the query. -/
theorem Matches.all_words {data : Str} (matched : Matches loc query data) :
    ∀ word ∈ query.words loc, word ∈ loc.words data := by
  intro word member
  rcases List.mem_append.mp member with quoted | unquoted
  · obtain ⟨phrase, same, inPhrase⟩ := List.mem_flatMap.mp quoted
    exact (matched.2 phrase (Option.mem_toList.mp same)).subset inPhrase
  · exact matched.1 word unquoted

/-- No document of the collection tells a phrase from its words without their repetitions. -/
def NoneTellsApart (loc : Locale) (query : Query) (docs : List Document) : Prop :=
  ∀ doc ∈ docs, (∀ word ∈ query.words loc, word ∈ loc.words doc.data) →
    ∀ phrase, query.quoted = some phrase →
      ((loc.words phrase).eraseDups <:+: loc.words doc.data ↔
        loc.words phrase <:+: loc.words doc.data)

/-- **On a collection, the search is exact exactly if no document tells the two forms of the phrase
apart.** -/
theorem exact_iff_noneTellsApart (collection : Collection loc ell query docs)
    (hasWord : query.words loc ≠ [])
    (answered : Answered loc ell (Indexes.ofUpdates loc ell (updatesOf docs)) query.text request
      names result) :
    Exact loc ell query docs request result ↔ NoneTellsApart loc query docs := by
  refine forall_congr' fun doc => forall_congr' fun listed => ?_
  rw [mem_resultIds_iff collection listed hasWord answered]
  constructor
  · intro exact all phrase quoted
    have whole : ∀ other, query.quoted = some other → other = phrase := fun other same => by
      rw [quoted] at same
      cases same
      rfl
    constructor
    · intro stands
      exact (exact.mp ⟨all, fun other same => whole other same ▸ stands⟩).2 phrase quoted
    · intro stands
      refine (exact.mpr ⟨fun word member => all word (List.mem_append_right _ member), ?_⟩).2 phrase
        quoted
      exact fun other same => whole other same ▸ stands
  · intro same
    constructor
    · rintro ⟨all, stands⟩
      exact ⟨fun word member => all word (List.mem_append_right _ member), fun phrase quoted =>
        (same all phrase quoted).mp (stands phrase quoted)⟩
    · intro matched
      exact ⟨matched.all_words, fun phrase quoted =>
        (same matched.all_words phrase quoted).mpr (matched.2 phrase quoted)⟩

/-- One document made of words of the query is a collection. -/
theorem collection_singleton (doc : Document) (ofQuery : ∀ word ∈ loc.words doc.data,
      word ∈ query.words loc)
    (injective : ∀ v ∈ query.words loc, ∀ w ∈ query.words loc,
      ell.transform v = ell.transform w → v = w) :
    Collection loc ell query [doc] := by
  have involved : ∀ word, Involved loc query [doc] word → word ∈ query.words loc := by
    rintro word (asked | ⟨other, listed, member⟩)
    · exact asked
    · rw [List.mem_singleton.mp listed] at member
      exact ofQuery word member
  exact ⟨List.nodup_singleton _, fun v w left right =>
    injective v (involved v left) w (involved w right)⟩

/-- A collection of one document whose words are the query's, each once, tells a phrase that repeats
a word apart. -/
theorem exists_tellsApart
    (spell : ∀ sequence : List Str, (∀ word ∈ sequence, word ∈ query.words loc) →
      ∃ text, loc.words text = sequence)
    (injective : ∀ v ∈ query.words loc, ∀ w ∈ query.words loc,
      ell.transform v = ell.transform w → v = w) :
    ∃ docs, Collection loc ell query docs ∧
      (NoneTellsApart loc query docs → ∀ phrase, query.quoted = some phrase →
        (loc.words phrase).Nodup) := by
  obtain ⟨text, spelled⟩ := spell (query.words loc).eraseDups fun word member =>
    List.mem_eraseDups.mp member
  refine ⟨[⟨⟨0, 0⟩, [], text⟩], collection_singleton _ (fun word member => ?_) injective, ?_⟩
  · have member : word ∈ loc.words text := member
    rw [spelled] at member
    exact List.mem_eraseDups.mp member
  · intro none phrase quoted
    have same := none _ (List.mem_singleton.mpr rfl) ?_ phrase quoted
    · have front : (loc.words phrase).eraseDups <:+: (query.words loc).eraseDups := by
        have words : query.words loc = loc.words phrase ++ loc.words query.unquoted := by
          rw [Query.words, quoted]
          simp
        rw [words, List.eraseDups_append]
        exact (List.prefix_append _ _).isInfix
      have block := same.mp (show _ <:+: loc.words text from spelled ▸ front)
      refine List.Nodup.sublist block.sublist ?_
      show (loc.words text).Nodup
      rw [spelled]
      exact nodup_eraseDups _
    · intro word asked
      show word ∈ loc.words text
      rw [spelled]
      exact List.mem_eraseDups.mpr asked

end Collection

/-- **Phrase search is exact exactly where the phrase repeats no word.** The first part takes one
collection, the second all of them. `spell` says that any sequence of the query's words is that of
some text. -/
theorem phrase_search_exact_iff (loc : Locale) (ell : Elliptics) (query : Query)
    (hasWord : query.words loc ≠ [])
    (injective : ∀ v ∈ query.words loc, ∀ w ∈ query.words loc,
      ell.transform v = ell.transform w → v = w)
    (spell : ∀ sequence : List Str, (∀ word ∈ sequence, word ∈ query.words loc) →
      ∃ text, loc.words text = sequence) :
    (∀ docs request names result, Collection loc ell query docs →
      Answered loc ell (Indexes.ofUpdates loc ell (updatesOf docs)) query.text
          request names result →
        (Exact loc ell query docs request result ↔ NoneTellsApart loc query docs)) ∧
    ((∀ docs request names result, Collection loc ell query docs →
      Answered loc ell (Indexes.ofUpdates loc ell (updatesOf docs)) query.text
          request names result →
        Exact loc ell query docs request result) ↔
      ∀ phrase, query.quoted = some phrase → (loc.words phrase).Nodup) := by
  refine ⟨fun docs request names result collection answered =>
    exact_iff_noneTellsApart collection hasWord answered, ?_, ?_⟩
  · intro exact
    obtain ⟨docs, collection, distinct⟩ := exists_tellsApart spell injective
    have answered : Answered loc ell (Indexes.ofUpdates loc ell (updatesOf docs)) query.text
        (query.request loc ell) (query.names loc) (findAllIndexes loc ell (updatesOf docs)
          (transformTokens ell (query.names loc))) :=
      ⟨find_query loc ell query, returned_findAllIndexes _ _ _ _⟩
    exact distinct ((exact_iff_noneTellsApart collection hasWord answered).mp
      (exact _ _ _ _ collection answered))
  · intro distinct docs request names result collection answered
    rw [exact_iff_noneTellsApart collection hasWord answered]
    intro doc _ _ phrase quoted
    rw [eraseDups_of_nodup (distinct phrase quoted)]

/-- The quoted phrase `a b`, and the word `c`. -/
def twoWords : Query := .phrase ['c', ' '] ['a', ' ', 'b'] [] (by decide) (by decide) (by decide)

/-- A document for it. -/
def oneDocument : Document := ⟨⟨7, 0⟩, ['k'], ['a', ' ', 'b', ' ', 'c']⟩

theorem twoWords_plain : ∀ word ∈ twoWords.words .ascii, IsAsciiWord word := by decide +kernel

theorem twoWords_injective : ∀ v ∈ twoWords.words .ascii, ∀ w ∈ twoWords.words .ascii,
    Elliptics.plain.transform v = Elliptics.plain.transform w → v = w := by decide +kernel

theorem phrase_search_exact_iff_twoWords :
    Exact .ascii .plain twoWords [oneDocument] (twoWords.request .ascii .plain)
      (findAllIndexes .ascii .plain (updatesOf [oneDocument])
        (transformTokens .plain (twoWords.names .ascii))) :=
  (phrase_search_exact_iff .ascii .plain twoWords (by decide +kernel) twoWords_injective
    (fun sequence words => exists_ascii_words fun word member =>
      twoWords_plain word (words word member))).2.mpr
    (by
      rintro phrase quoted
      cases quoted
      decide)
    [oneDocument] _ _ _ (collection_singleton oneDocument (by decide) twoWords_injective)
    ⟨find_query _ _ _, returned_findAllIndexes _ _ _ _⟩

/-- A document that repeats a word, and its whole text in quotes. -/
def repeating : Document := ⟨⟨7, 0⟩, ['k'], ['a', ' ', 'b', ' ', 'a', ' ', 'c']⟩

def ownText : Query := .phrase [] repeating.data [] (by decide) (by decide) (by decide)

/-- **A document is not found by its own text**: the quote is matched as `a b c`. -/
theorem phrase_not_found :
    ∃ request names result, Collection .ascii .plain ownText [repeating] ∧
      Answered .ascii .plain (Indexes.ofUpdates .ascii .plain (updatesOf [repeating])) ownText.text
        request names result ∧
      Matches .ascii ownText repeating.data ∧
      Elliptics.plain.transform repeating.key ∉
        (onResultReady request result none .new).1.resultIds := by
  refine ⟨ownText.request .ascii .plain, ownText.names .ascii, findAllIndexes .ascii .plain
    (updatesOf [repeating]) (transformTokens .plain (ownText.names .ascii)),
    collection_singleton repeating (by decide) (by decide +kernel),
    ⟨find_query _ _ _, returned_findAllIndexes _ _ _ _⟩, ⟨by decide, ?_⟩, by decide +kernel⟩
  rintro phrase quoted
  cases quoted
  exact List.infix_refl _

end Wookie.FindResult
