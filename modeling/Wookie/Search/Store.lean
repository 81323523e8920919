/-
**The indexes of a document: `basic_elliptics_splitter` and the store it fills.**

`prepare_indexes` lists the indexes of one document: one `index_data` record for each token, under
the token's name, and one `document` record under the base index. `set_indexes` replaces the whole
index set of a key by such a list. What elliptics does with names and lists is the parameter
`Elliptics`.

* `mem_prepareIndexes` — the records of a document, token by token.
* `Indexes.ofUpdates` — the store after a sequence of documents was indexed; `lastIndexed` names the
  document whose indexes an object holds.
-/

import Mathlib.Data.List.Induction
import Mathlib.Logic.Function.Basic
import Wookie.Search.Split

namespace Wookie

/-- `dnet_raw_id`: `DNET_ID_SIZE` is 64 bytes. -/
abbrev RawId := BitVec 512

/-- elliptics, as far as indexes go. -/
structure Elliptics where
  /-- `session::transform`: the raw id of a name. -/
  transform : Str → RawId
  /-- The index set that `session::set_indexes` makes of the list it is handed. -/
  indexSet : List (RawId × DataPointer) → List (RawId × DataPointer)
  /-- Nothing is made up. -/
  mem_of_mem_indexSet : ∀ {list index}, index ∈ indexSet list → index ∈ list
  /-- What is listed last under an index is kept. -/
  last_mem_indexSet : ∀ {before after index data}, (∀ other ∈ after, other.1 ≠ index) →
    (index, data) ∈ indexSet (before ++ (index, data) :: after)

/-- `storage::transform_tokens`. -/
def transformTokens (ell : Elliptics) (tokens : List Str) : List RawId := tokens.map ell.transform

/-! ### `basic_elliptics_splitter::prepare_indexes` -/

/-- The index of one token. -/
def tokenIndex (ts : DnetTime) (p : Str × List Int) : Str × DataPointer :=
  (p.1, (IndexData.mk ts p.1 p.2).convert)

/-- `basic_elliptics_splitter::prepare_indexes`: `ids` and `objs`, paired. -/
def prepareIndexes (loc : Locale) (key content : Str) (ts : DnetTime) (baseIndex : Str) :
    List (Str × DataPointer) :=
  (if content = [] then [] else (Split.feed loc content []).1.toList.map (tokenIndex ts)) ++
    (if baseIndex = [] then [] else [(baseIndex, packDocument ⟨ts, key, key⟩)])

/-- `prepare_indexes` of a document. -/
def Document.prepareIndexes (loc : Locale) (doc : Document) (baseIndex : Str) :
    List (Str × DataPointer) :=
  Wookie.prepareIndexes loc doc.key doc.data doc.ts baseIndex

section Prepared

variable {loc : Locale} {key content : Str} {ts : DnetTime} {baseIndex : Str}

/-- The record of a token holds its positions in the content. -/
structure IsTokenRecord (loc : Locale) (content token : Str) (data : DataPointer) : Prop where
  word : token ∈ loc.words content
  packed : ∃ idata, data = IndexData.convert idata ∧
    ∀ p : Int, p ∈ idata.pos ↔ ∃ n : Nat, p = n ∧ (loc.words content)[n]? = some token

/-- **Every prepared index is a token's or the base index.** -/
theorem mem_prepareIndexes {index : Str × DataPointer}
    (member : index ∈ prepareIndexes loc key content ts baseIndex) :
    IsTokenRecord loc content index.1 index.2 ∨
      baseIndex ≠ [] ∧ index = (baseIndex, packDocument ⟨ts, key, key⟩) := by
  rcases List.mem_append.mp member with tokens | base
  · split at tokens
    · cases tokens
    · obtain ⟨⟨token, positions⟩, listed, rfl⟩ := List.mem_map.mp tokens
      have found := Std.TreeMap.mem_toList_iff_getElem?_eq_some.mp listed
      refine .inl ⟨?_, ⟨ts, token, positions⟩, rfl, ?_⟩
      · show token ∈ loc.words content
        rw [← Split.mem_feed loc content [], Std.TreeMap.mem_iff_isSome_getElem?, found]
        rfl
      · exact Split.mem_feed_positions loc content found
  · split at base
    · cases base
    · rename_i named
      exact .inr ⟨named, List.mem_singleton.mp base⟩

/-- **Every word of the content has its index.** -/
theorem exists_mem_prepareIndexes (key : Str) (ts : DnetTime) (baseIndex : Str) {token : Str}
    (word : token ∈ loc.words content) :
    ∃ data, (token, data) ∈ prepareIndexes loc key content ts baseIndex := by
  have nonempty : content ≠ [] := by
    rintro rfl
    rw [loc.words_nil] at word
    cases word
  have member : token ∈ (Split.feed loc content []).1 :=
    (Split.mem_feed loc content [] token).mpr word
  have found := Std.TreeMap.getElem?_eq_some_getElem member
  refine ⟨(tokenIndex ts (token, (Split.feed loc content []).1[token])).2, ?_⟩
  refine List.mem_append_left _ ?_
  rw [if_neg nonempty]
  exact List.mem_map.mpr ⟨_, Std.TreeMap.mem_toList_iff_getElem?_eq_some.mpr found, rfl⟩

/-- The names of the prepared indexes. -/
theorem mem_names_prepareIndexes (key : Str) (ts : DnetTime) {name : Str} :
    name ∈ (prepareIndexes loc key content ts baseIndex).map Prod.fst ↔
      name ∈ loc.words content ∨ baseIndex ≠ [] ∧ name = baseIndex := by
  constructor
  · intro member
    obtain ⟨index, listed, rfl⟩ := List.mem_map.mp member
    rcases mem_prepareIndexes listed with record | ⟨named, rfl⟩
    · exact .inl record.word
    · exact .inr ⟨named, rfl⟩
  · rintro (word | ⟨named, rfl⟩)
    · obtain ⟨data, listed⟩ := exists_mem_prepareIndexes key ts baseIndex word
      exact List.mem_map.mpr ⟨_, listed, rfl⟩
    · refine List.mem_map.mpr ⟨(name, packDocument ⟨ts, key, key⟩), ?_, rfl⟩
      rw [prepareIndexes, if_neg named]
      exact List.mem_append_right _ (List.mem_singleton.mpr rfl)

end Prepared

/-! ### `session::set_indexes` -/

/-- The indexes of every object. -/
abbrev Indexes := RawId → List (RawId × DataPointer)

/-- `session::set_indexes`: the index set of the key is replaced as a whole. -/
def setIndexes (ell : Elliptics) (store : Indexes) (key : Str)
    (indexes : List (Str × DataPointer)) : Indexes :=
  Function.update store (ell.transform key)
    (ell.indexSet (indexes.map fun index => (ell.transform index.1, index.2)))

/-- The arguments of one `prepare_indexes`. -/
structure Update where
  key : Str
  content : Str
  ts : DnetTime
  baseIndex : Str
  deriving DecidableEq

/-- What `prepare_indexes` makes of them. -/
def Update.indexes (loc : Locale) (update : Update) : List (Str × DataPointer) :=
  prepareIndexes loc update.key update.content update.ts update.baseIndex

/-- The prepared indexes are set; the callers skip an empty list. -/
def Update.apply (loc : Locale) (ell : Elliptics) (store : Indexes) (update : Update) : Indexes :=
  if (update.indexes loc).isEmpty then store
  else setIndexes ell store update.key (update.indexes loc)

/-- The store after a sequence of updates. -/
def Indexes.ofUpdates (loc : Locale) (ell : Elliptics) (updates : List Update) : Indexes :=
  updates.foldl (Update.apply loc ell) fun _ => []

/-- The update whose indexes an object holds: the last one that set any for it. An update without
indexes sets none. -/
def lastIndexed (loc : Locale) (ell : Elliptics) (updates : List Update) (id : RawId) :
    Option Update :=
  (updates.filter fun update =>
    ell.transform update.key == id && !(update.indexes loc).isEmpty).getLast?

/-- The index set an update makes. -/
def Update.indexSet (loc : Locale) (ell : Elliptics) (update : Update) :
    List (RawId × DataPointer) :=
  ell.indexSet ((update.indexes loc).map fun index => (ell.transform index.1, index.2))

section Store

variable {loc : Locale} {ell : Elliptics}

/-- **An object holds the indexes of the update that last set any.** -/
theorem ofUpdates_apply (updates : List Update) (id : RawId) :
    Indexes.ofUpdates loc ell updates id =
      ((lastIndexed loc ell updates id).map (Update.indexSet loc ell)).getD [] := by
  induction updates using List.reverseRecOn with
  | nil => rfl
  | append_singleton updates update ih =>
    have last : Indexes.ofUpdates loc ell (updates ++ [update]) =
        update.apply loc ell (Indexes.ofUpdates loc ell updates) := by
      simp only [Indexes.ofUpdates, List.foldl_append, List.foldl_cons, List.foldl_nil]
    rw [last, Update.apply]
    by_cases skipped : (update.indexes loc).isEmpty = true
    · rw [if_pos skipped, ih]
      simp only [lastIndexed, List.filter_append, List.filter_cons, List.filter_nil, skipped,
        Bool.not_true, Bool.and_false, Bool.false_eq_true, if_false, List.append_nil]
    · rw [if_neg skipped, setIndexes]
      by_cases own : ell.transform update.key = id
      · subst own
        rw [Function.update_self]
        simp [lastIndexed, List.filter_append, skipped, Update.indexSet]
      · rw [Function.update_of_ne (Ne.symm own), ih]
        simp [lastIndexed, List.filter_append, own]

/-- The update that last set an object's indexes is one of the sequence, under a key of the object.
-/
theorem mem_of_lastIndexed {updates : List Update} {id : RawId} {update : Update}
    (newest : lastIndexed loc ell updates id = some update) :
    update ∈ updates ∧ ell.transform update.key = id := by
  obtain ⟨member, own⟩ := List.mem_filter.mp (List.mem_of_getLast? newest)
  exact ⟨member, by simpa using (Bool.and_eq_true_iff.mp own).1⟩

/-- The last place of an index in a list. -/
theorem exists_last {index : RawId} {list : List (RawId × DataPointer)}
    (member : index ∈ list.map Prod.fst) :
    ∃ before data after, list = before ++ (index, data) :: after ∧
      ∀ other ∈ after, other.1 ≠ index := by
  induction list with
  | nil => cases member
  | cons first rest ih =>
    by_cases again : index ∈ rest.map Prod.fst
    · obtain ⟨before, data, after, rfl, none⟩ := ih again
      exact ⟨first :: before, data, after, rfl, none⟩
    · rcases List.mem_cons.mp member with rfl | later
      · exact ⟨[], first.2, rest, rfl, fun other listed same =>
          again (List.mem_map.mpr ⟨other, listed, same⟩)⟩
      · exact absurd later again

/-- **An index set has the ids of the list it is made of.** -/
theorem mem_ids_indexSet {index : RawId} {list : List (RawId × DataPointer)} :
    index ∈ (ell.indexSet list).map Prod.fst ↔ index ∈ list.map Prod.fst := by
  constructor
  · intro carried
    obtain ⟨held, member, rfl⟩ := List.mem_map.mp carried
    exact List.mem_map_of_mem (ell.mem_of_mem_indexSet member)
  · intro listed
    obtain ⟨before, data, after, rfl, last⟩ := exists_last listed
    exact List.mem_map_of_mem (ell.last_mem_indexSet last)

/-- **Everything in an index set is a token's record or the base index's.** -/
theorem mem_indexSet {update : Update} {index : RawId × DataPointer}
    (member : index ∈ update.indexSet loc ell) :
    ∃ name, ell.transform name = index.1 ∧
      (IsTokenRecord loc update.content name index.2 ∨
        update.baseIndex ≠ [] ∧ name = update.baseIndex ∧
          index.2 = packDocument ⟨update.ts, update.key, update.key⟩) := by
  obtain ⟨prepared, listed, rfl⟩ := List.mem_map.mp (ell.mem_of_mem_indexSet member)
  refine ⟨prepared.1, rfl, ?_⟩
  rcases mem_prepareIndexes listed with record | ⟨named, rfl⟩
  · exact .inl record
  · exact .inr ⟨named, rfl, rfl⟩

/-- The ids of the indexes an update sets. -/
def Update.ids (loc : Locale) (ell : Elliptics) (update : Update) : List RawId :=
  (update.indexes loc).map fun index => ell.transform index.1

theorem ids_indexSet {update : Update} {index : RawId} :
    index ∈ (update.indexSet loc ell).map Prod.fst ↔ index ∈ update.ids loc ell := by
  rw [Update.indexSet, mem_ids_indexSet, List.map_map]
  rfl

/-- **The ids an update sets** are those of its words and of its base index. -/
theorem mem_ids {update : Update} {index : RawId} :
    index ∈ update.ids loc ell ↔ ∃ name, ell.transform name = index ∧
      (name ∈ loc.words update.content ∨ update.baseIndex ≠ [] ∧ name = update.baseIndex) := by
  simp only [← mem_names_prepareIndexes update.key update.ts, Update.ids, Update.indexes,
    List.mem_map]
  constructor
  · rintro ⟨prepared, listed, rfl⟩
    exact ⟨prepared.1, rfl, prepared, listed, rfl⟩
  · rintro ⟨-, rfl, prepared, listed, rfl⟩
    exact ⟨prepared, listed, rfl⟩

/-- **The base index keeps its record**, whatever the tokens are. -/
theorem base_mem_indexSet {update : Update} (named : update.baseIndex ≠ []) :
    (ell.transform update.baseIndex, packDocument ⟨update.ts, update.key, update.key⟩) ∈
      update.indexSet loc ell := by
  rw [Update.indexSet, Update.indexes, prepareIndexes, if_neg named, List.map_append]
  exact ell.last_mem_indexSet fun other listed => by cases listed

/-- **What an object holds** is what the update that last set any set. -/
theorem mem_ofUpdates {updates : List Update} {id : RawId} {index : RawId × DataPointer} :
    index ∈ Indexes.ofUpdates loc ell updates id ↔
      ∃ update, lastIndexed loc ell updates id = some update ∧ index ∈ update.indexSet loc ell := by
  rw [ofUpdates_apply]
  cases lastIndexed loc ell updates id with
  | none => simp
  | some update => simp

theorem mem_ids_ofUpdates {updates : List Update} {id index : RawId} :
    index ∈ (Indexes.ofUpdates loc ell updates id).map Prod.fst ↔
      ∃ update, lastIndexed loc ell updates id = some update ∧ index ∈ update.ids loc ell := by
  simp only [← ids_indexSet, List.mem_map, mem_ofUpdates]
  constructor
  · rintro ⟨held, ⟨update, same, member⟩, rfl⟩
    exact ⟨update, same, held, member, rfl⟩
  · rintro ⟨update, same, held, member, rfl⟩
    exact ⟨held, ⟨update, same, member⟩, rfl⟩

end Store

/-! ### A concrete elliptics -/

/-- Of all that is listed under an index, the last. -/
def lastListed : List (RawId × DataPointer) → List (RawId × DataPointer)
  | [] => []
  | first :: rest =>
    if rest.any (·.1 == first.1) then lastListed rest else first :: lastListed rest

theorem mem_of_mem_lastListed {list : List (RawId × DataPointer)} {index : RawId × DataPointer}
    (member : index ∈ lastListed list) : index ∈ list := by
  induction list with
  | nil => exact member
  | cons first rest ih =>
    unfold lastListed at member
    split at member
    · exact List.mem_cons_of_mem _ (ih member)
    · exact (List.mem_cons.mp member).elim (fun same => same ▸ List.mem_cons_self)
        fun later => List.mem_cons_of_mem _ (ih later)

theorem last_mem_lastListed {before after : List (RawId × DataPointer)} {index : RawId}
    {data : DataPointer} (last : ∀ other ∈ after, other.1 ≠ index) :
    (index, data) ∈ lastListed (before ++ (index, data) :: after) := by
  induction before with
  | nil =>
    have none : after.any (·.1 == index) = false := by simpa using last
    rw [List.nil_append, lastListed, none]
    exact List.mem_cons_self
  | cons first rest ih =>
    rw [List.cons_append, lastListed]
    split
    · exact ih
    · exact List.mem_cons_of_mem _ ih

/-- An elliptics whose raw ids are the names read as numbers, the last record under an index
kept. -/
def Elliptics.plain : Elliptics where
  transform name := BitVec.ofNat 512 (name.foldl (fun id ch => id * 256 + ch.toNat) 1)
  indexSet := lastListed
  mem_of_mem_indexSet := mem_of_mem_lastListed
  last_mem_indexSet := last_mem_lastListed

end Wookie
