/-
**The reverse index of a document loses nothing.**

`prepare_indexes` appends to two lists, `ids` and `objs`; `prepareInto` is that function with the
lists it is handed. Its token part is a reverse index of the words of the content.

* `prepareInto_eq` — the two lists grow side by side, by the pairs of `prepareIndexes`.
* `inverts_feed` — the position map of a text is a reverse index of its words.
* `reverse_index_lossless` — **the records decode to a reverse index of the words, from which every
  word is read back.**
* `ids_distinct_iff` — the ids of one call are distinct, unless the base index is named like one of
  the words.
-/

import Wookie.Library.ReverseIndex
import Wookie.Search.Find

namespace Wookie

open Library

/-! ### The two lists -/

/-- One token: `ids.emplace_back`, `objs.emplace_back`. -/
def pushToken (ts : DnetTime) (lists : List Str × List DataPointer) (p : Str × List Int) :
    List Str × List DataPointer :=
  (lists.1 ++ [p.1], lists.2 ++ [(IndexData.mk ts p.1 p.2).convert])

/-- The loop over the tokens. -/
def pushTokens (ts : DnetTime) (mpos : Split.Mpos) (lists : List Str × List DataPointer) :
    List Str × List DataPointer :=
  mpos.toList.foldl (pushToken ts) lists

/-- `basic_elliptics_splitter::prepare_indexes` on the lists it is handed. -/
def prepareInto (loc : Locale) (key content : Str) (ts : DnetTime) (baseIndex : Str)
    (lists : List Str × List DataPointer) : List Str × List DataPointer :=
  let lists := if content = [] then lists else pushTokens ts (Split.feed loc content []).1 lists
  if baseIndex = [] then lists
  else (lists.1 ++ [baseIndex], lists.2 ++ [packDocument ⟨ts, key, key⟩])

theorem foldl_pushToken (ts : DnetTime) (entries : List (Str × List Int)) :
    ∀ lists : List Str × List DataPointer, entries.foldl (pushToken ts) lists =
      (lists.1 ++ (entries.map (tokenIndex ts)).map Prod.fst,
        lists.2 ++ (entries.map (tokenIndex ts)).map Prod.snd) := by
  induction entries with
  | nil => simp
  | cons entry rest ih =>
    intro lists
    rw [List.foldl_cons, ih]
    simp [pushToken, tokenIndex]

/-- **The lists grow side by side**, by the prepared indexes. -/
theorem prepareInto_eq (loc : Locale) (key content : Str) (ts : DnetTime) (baseIndex : Str)
    (lists : List Str × List DataPointer) :
    prepareInto loc key content ts baseIndex lists =
      (lists.1 ++ (prepareIndexes loc key content ts baseIndex).map Prod.fst,
        lists.2 ++ (prepareIndexes loc key content ts baseIndex).map Prod.snd) := by
  unfold prepareInto prepareIndexes pushTokens
  rw [foldl_pushToken]
  by_cases empty : content = [] <;> by_cases named : baseIndex = [] <;> simp [empty, named]

/-! ### The records -/

variable (loc : Locale) (key content : Str) (ts : DnetTime) (baseIndex : Str)

/-- The records of the tokens. -/
def tokenRecords : List IndexData :=
  if content = [] then []
  else (Split.feed loc content []).1.toList.map fun p => ⟨ts, p.1, p.2⟩

/-- The record of the base index, if it has a name. -/
def baseRecord : List (Str × DataPointer) :=
  if baseIndex = [] then [] else [(baseIndex, packDocument ⟨ts, key, key⟩)]

theorem prepareIndexes_eq : prepareIndexes loc key content ts baseIndex =
    (tokenRecords loc content ts).map (fun record => (record.key, record.convert)) ++
      baseRecord key ts baseIndex := by
  unfold prepareIndexes tokenRecords baseRecord
  by_cases empty : content = []
  · simp [empty]
  · simp only [empty, if_false, List.map_map]
    rfl

/-- The entries of a position map, token by token. -/
def entriesOf (records : List IndexData) : List (Str × List Int) :=
  records.map fun record => (record.key, record.pos)

/-- **The position map of a text is a reverse index of its words.** -/
theorem inverts_feed : Inverts (loc.words content) (Split.feed loc content []).1.toList where
  distinct := by
    refine List.pairwise_map.mpr (Std.TreeMap.distinct_keys_toList.imp fun differs same => ?_)
    exact differs (Std.compare_eq_iff_eq.mpr same)
  rising entry listed :=
    Split.feed_rising loc content (Std.TreeMap.mem_toList_iff_getElem?_eq_some.mp listed)
  at_iff entry listed :=
    Split.mem_feed_positions loc content (Std.TreeMap.mem_toList_iff_getElem?_eq_some.mp listed)
  whole word member := by
    have held := (Split.mem_feed loc content [] word).mpr member
    exact ⟨(word, (Split.feed loc content []).1[word]),
      Std.TreeMap.mem_toList_iff_getElem?_eq_some.mpr (Std.TreeMap.getElem?_eq_some_getElem held),
      rfl⟩

theorem inverts_tokenRecords :
    Inverts (loc.words content) (entriesOf (tokenRecords loc content ts)) := by
  unfold tokenRecords entriesOf
  split
  · rename_i empty
    subst empty
    rw [loc.words_nil]
    exact ⟨List.nodup_nil, nofun, nofun, nofun⟩
  · rw [List.map_map]
    exact (List.map_id _).symm ▸ inverts_feed loc content

/-! ### Reading the lists back -/

/-- The word at a place, from `ids` and `objs`. -/
def wordAt (lists : List Str × List DataPointer) (n : Nat) : Option Str :=
  elementAt (lists.1.zip (lists.2.map FindResult.positionsOf)) n

/-- The records are those of the words, one for each distinct word: its time, and exactly its places
in rising order. -/
structure Lossless (words : List Str) (ts : DnetTime) (records : List IndexData) : Prop where
  distinct : (records.map IndexData.key).Nodup
  times : ∀ record ∈ records, record.ts = ts
  rising : ∀ record ∈ records, record.pos.Pairwise (· < ·)
  disjoint : records.Pairwise fun a b => ∀ p ∈ a.pos, p ∉ b.pos
  covers : ∀ p : Int, (∃ record ∈ records, p ∈ record.pos) ↔ 0 ≤ p ∧ p < words.length
  at_iff : ∀ record ∈ records, ∀ n : Nat, (n : Int) ∈ record.pos ↔ words[n]? = some record.key

theorem lossless_tokenRecords : Lossless (loc.words content) ts (tokenRecords loc content ts) := by
  have inverts := inverts_tokenRecords loc content ts
  have entry : ∀ record ∈ tokenRecords loc content ts,
      (record.key, record.pos) ∈ entriesOf (tokenRecords loc content ts) := fun record listed =>
    List.mem_map.mpr ⟨record, listed, rfl⟩
  refine ⟨?_, fun record listed => ?_, fun record listed => inverts.rising _ (entry record listed),
    List.pairwise_map.mp inverts.disjoint, fun p => ?_,
    fun record listed n => inverts.mem_iff (entry record listed) n⟩
  · have distinct := inverts.distinct
    rwa [entriesOf, List.map_map] at distinct
  · unfold tokenRecords at listed
    split at listed
    · cases listed
    · obtain ⟨token, -, rfl⟩ := List.mem_map.mp listed
      rfl
  · rw [← inverts.covers p, entriesOf]
    simp only [List.mem_map, exists_exists_and_eq_and]

/-- **Every word is read back** from the two lists. The record of the base index has no places. -/
theorem wordAt_prepareIndexes (n : Nat) :
    wordAt ((prepareIndexes loc key content ts baseIndex).map Prod.fst,
      (prepareIndexes loc key content ts baseIndex).map Prod.snd) n = (loc.words content)[n]? := by
  have empty : ∀ entry ∈ (baseRecord key ts baseIndex).map fun index =>
      (index.1, FindResult.positionsOf index.2), entry.2 = [] := by
    intro entry listed
    obtain ⟨index, named, rfl⟩ := List.mem_map.mp listed
    unfold baseRecord at named
    split at named
    · cases named
    · rw [List.mem_singleton.mp named, FindResult.positionsOf, ofData_packDocument]
  rw [← (inverts_tokenRecords loc content ts).elementAt_eq, wordAt, prepareIndexes_eq,
    List.map_map, List.zip_map', List.map_append]
  simp only [List.map_map, entriesOf, Function.comp_def, FindResult.positionsOf_convert]
  exact elementAt_append empty n

/-- **The reverse index is lossless.** -/
theorem reverse_index_lossless :
    ∃ records : List IndexData,
      prepareInto loc key content ts baseIndex ([], []) =
        (records.map IndexData.key ++ (baseRecord key ts baseIndex).map Prod.fst,
          records.map IndexData.convert ++ (baseRecord key ts baseIndex).map Prod.snd) ∧
      (prepareInto loc key content ts baseIndex ([], [])).1.length =
        (prepareInto loc key content ts baseIndex ([], [])).2.length ∧
      (records.map IndexData.convert).map IndexData.ofData = records.map .ok ∧
      Lossless (loc.words content) ts records ∧
      (∀ n, wordAt (prepareInto loc key content ts baseIndex ([], [])) n =
        (loc.words content)[n]?) ∧
      (Split.feed loc content []).2 = (loc.words content).eraseDups := by
  refine ⟨tokenRecords loc content ts, ?_, ?_, ?_, lossless_tokenRecords loc content ts,
    fun n => ?_, ?_⟩
  · rw [prepareInto_eq, prepareIndexes_eq]
    simp
  · simp [prepareInto_eq]
  · simp
  · rw [prepareInto_eq]
    exact wordAt_prepareIndexes loc key content ts baseIndex n
  · exact Split.feed_tokens loc content

/-! ### The ids of one call -/

/-- The tokens with a record are the words. -/
theorem mem_tokenRecords (token : Str) :
    token ∈ (tokenRecords loc content ts).map IndexData.key ↔ token ∈ loc.words content := by
  unfold tokenRecords
  split
  · rename_i empty
    rw [empty, loc.words_nil, List.map_nil]
  · rw [List.map_map, ← Split.mem_feed loc content [], ← Std.TreeMap.mem_keys,
      ← Std.TreeMap.map_fst_toList_eq_keys]
    rfl

/-- **The ids are distinct** exactly if the base index has a name of its own. -/
theorem ids_distinct_iff :
    (prepareInto loc key content ts baseIndex ([], [])).1.Nodup ↔
      baseIndex = [] ∨ baseIndex ∉ loc.words content := by
  have tokens : ((tokenRecords loc content ts).map IndexData.key).Nodup :=
    (lossless_tokenRecords loc content ts).distinct
  have ids : (prepareInto loc key content ts baseIndex ([], [])).1 =
      (tokenRecords loc content ts).map IndexData.key ++
        (baseRecord key ts baseIndex).map Prod.fst := by
    rw [prepareInto_eq, prepareIndexes_eq, List.map_append, List.map_map]
    rfl
  rw [ids]
  by_cases unnamed : baseIndex = []
  · have none : baseRecord key ts baseIndex = [] := if_pos unnamed
    rw [none, List.map_nil, List.append_nil]
    exact ⟨fun _ => .inl unnamed, fun _ => tokens⟩
  · have one : baseRecord key ts baseIndex = [(baseIndex, packDocument ⟨ts, key, key⟩)] :=
      if_neg unnamed
    rw [one, List.map_singleton, List.nodup_append_comm, List.singleton_append, List.nodup_cons,
      mem_tokenRecords]
    exact ⟨fun apart => .inr apart.1, fun named => ⟨named.resolve_left unnamed, tokens⟩⟩

/-- **A text that says the name of its base index.** -/
theorem ids_repeated :
    ¬ (prepareInto .ascii ['n'] ['a', 'l', 'l'] ⟨0, 0⟩ ['a', 'l', 'l'] ([], [])).1.Nodup := by
  decide +kernel

end Wookie
