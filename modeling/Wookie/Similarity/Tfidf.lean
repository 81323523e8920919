/-
**Document frequencies: `tfidf` and the workers that collect them.**

`update_tfidf` feeds the words of one text: they are collected in a set, which is then counted into
the document frequencies and cleared. `load_documents` deals the texts out to workers, each with a
parser of its own, and `add_documents` merges the parsers' frequencies. The counters are 64 bits
wide; `feed_word` takes an `int`.

* `Tf.Counts tf fed` — what a `tf` means: a multiset of words fed.
* `Tf.Counts.feedWord`, `Tfidf.Counts.merge`, `Tfidf.Counts.updateTfidf` — what each operation does
  to that multiset.
* `sharding_irrelevant` — **fewer than `2 ^ 31` texts give the same counts and total, however they
  are dealt out and merged: each word's number of texts.**
-/

import Mathlib.Algebra.BigOperators.Group.Finset.Basic
import Mathlib.Data.Finset.Basic
import Std.Data.TreeSet.Lemmas
import Wookie.Library.Stride
import Wookie.Search.Split

namespace Wookie

open Library

/-! ### `tf` -/

/-- `class tf`. -/
structure Tf where
  words : Std.TreeMap Str (BitVec 64)
  totalWords : BitVec 64

namespace Tf

/-- `tf::tf()`. -/
def new : Tf := ⟨∅, 0⟩

/-- `tf::feed_word`: `num` is an `int` that is converted to `size_t`. -/
def feedWord (tf : Tf) (word : Str) (num : BitVec 32) : Tf where
  words :=
    match tf.words[word]? with
    | none => tf.words.insert word (num.signExtend 64)
    | some count => tf.words.insert word (count + num.signExtend 64)
  totalWords := tf.totalWords + num.signExtend 64

/-- `tf::count`. -/
def count (tf : Tf) (word : Str) : BitVec 64 := tf.words[word]?.getD 0

end Tf

/-! ### `tfidf` -/

/-- `class tfidf`. -/
structure Tfidf where
  df : Tf
  unique : Std.TreeSet Str

namespace Tfidf

/-- `tfidf::tfidf()`. -/
def new : Tfidf := ⟨.new, ∅⟩

/-- `tfidf::merge`: every count is converted to the `int` that `feed_word` takes. -/
def merge (tfidf other : Tfidf) : Tfidf where
  df := other.df.words.toList.foldl
    (fun df entry => df.feedWord entry.1 (entry.2.setWidth 32)) tfidf.df
  unique := tfidf.unique

/-- `tfidf::feed_word_for_one_file`. -/
def feedWordForOneFile (tfidf : Tfidf) (word : Str) : Tfidf :=
  { tfidf with unique := tfidf.unique.insert word }

/-- `tfidf::update_collected_df`. -/
def updateCollectedDf (tfidf : Tfidf) : Tfidf :=
  { df := tfidf.unique.toList.foldl (fun df word => df.feedWord word 1) tfidf.df, unique := ∅ }

/-- The body of the loop of `update_tfidf`. -/
def feedToken (loc : Locale) (fed : Tfidf × Tf) (it : Str) : Tfidf × Tf :=
  let token := loc.toLower it
  (fed.1.feedWordForOneFile token, fed.2.feedWord token 1)

/-- `parser::update_tfidf`, on the parser's `m_tfidf` and the text's own `tf`. -/
def updateTfidf (loc : Locale) (tfidf : Tfidf) (text : Str) (tf : Tf) : Tfidf × Tf :=
  let fed := (loc.segment text).foldl (feedToken loc) (tfidf, tf)
  (fed.1.updateCollectedDf, fed.2)

/-- A parser is fed a text. -/
def feedText (loc : Locale) (tfidf : Tfidf) (text : Str) : Tfidf :=
  (tfidf.updateTfidf loc text .new).1

/-- The loop of `loader::load_documents` over the documents of worker `id`. -/
def loadDocuments (loc : Locale) (texts : List Str) (step id : ℕ) : Tfidf :=
  (strided texts.length step id).foldl (fun tfidf i => tfidf.feedText loc (texts.getD i [])) .new

/-- `loader::add_documents`: `merge_into` for every worker, in some order. -/
def addDocuments (loc : Locale) (texts : List Str) (cpunum : ℕ) (order : List ℕ) : Tfidf :=
  order.foldl (fun df id => df.merge (loadDocuments loc texts cpunum id)) .new

end Tfidf

/-! ### What a `tf` means -/

/-- The `tf` has counted these words. -/
structure Tf.Counts (tf : Tf) (fed : Multiset Str) : Prop where
  words : ∀ word, tf.words[word]? =
    if word ∈ fed then some (BitVec.ofNat 64 (fed.count word)) else none
  total : tf.totalWords = BitVec.ofNat 64 fed.card

/-- A small `int` is the same `size_t`. -/
theorem signExtend_ofNat {k : ℕ} (small : k < 2 ^ 31) :
    (BitVec.ofNat 32 k).signExtend 64 = BitVec.ofNat 64 k := by
  have positive : (BitVec.ofNat 32 k).msb = false := by
    rw [BitVec.msb_eq_false_iff_two_mul_lt, BitVec.toNat_ofNat]
    omega
  rw [BitVec.signExtend_eq_setWidth_of_msb_false positive]
  apply BitVec.eq_of_toNat_eq
  rw [BitVec.toNat_setWidth, BitVec.toNat_ofNat, BitVec.toNat_ofNat]
  omega

/-- A `size_t` loses its upper half as an `int`. -/
theorem setWidth_ofNat (k : ℕ) : (BitVec.ofNat 64 k).setWidth 32 = BitVec.ofNat 32 k := by
  apply BitVec.eq_of_toNat_eq
  rw [BitVec.toNat_setWidth, BitVec.toNat_ofNat, BitVec.toNat_ofNat]
  omega

namespace Tf.Counts

variable {tf : Tf} {fed : Multiset Str}

theorem new : Tf.new.Counts 0 where
  words _ := Std.TreeMap.getElem?_emptyc
  total := rfl

/-- What is counted so far, whether the word is there or not. -/
theorem count_eq (counts : tf.Counts fed) (word : Str) :
    tf.count word = BitVec.ofNat 64 (fed.count word) := by
  rw [Tf.count, counts.words]
  split
  · rfl
  · rename_i missing
    rw [Multiset.count_eq_zero.mpr missing]
    rfl

/-- **`feed_word`** adds that many copies of the word. -/
theorem feedWord (counts : tf.Counts fed) (word : Str) {k : ℕ} (some : 0 < k) (small : k < 2 ^ 31) :
    (tf.feedWord word (BitVec.ofNat 32 k)).Counts (fed + Multiset.replicate k word) where
  words other := by
    have inserted : (tf.feedWord word (BitVec.ofNat 32 k)).words =
        tf.words.insert word (tf.count word + BitVec.ofNat 64 k) := by
      rw [Tf.feedWord, signExtend_ofNat small, Tf.count]
      cases tf.words[word]? with
      | none => simp
      | some count => rfl
    rw [inserted, Std.TreeMap.getElem?_insert]
    by_cases same : word = other
    · subst same
      have member : word ∈ fed + Multiset.replicate k word :=
        Multiset.mem_add.mpr (.inr (Multiset.mem_replicate.mpr ⟨by omega, rfl⟩))
      rw [if_pos Std.ReflCmp.compare_self, counts.count_eq, ← BitVec.ofNat_add, if_pos member,
        Multiset.count_add, Multiset.count_replicate_self]
    · rw [if_neg fun equal => same (Std.LawfulEqCmp.eq_of_compare equal), counts.words]
      simp [Multiset.mem_replicate, Ne.symm same]
  total := by
    rw [Tf.feedWord, signExtend_ofNat small, counts.total, ← BitVec.ofNat_add, Multiset.card_add,
      Multiset.card_replicate]

/-- One copy. -/
theorem feedWord_one (counts : tf.Counts fed) (word : Str) :
    (tf.feedWord word 1).Counts (fed + {word}) :=
  counts.feedWord word Nat.one_pos (by decide)

/-- **Distinct words** fed once each. -/
theorem feedWords (counts : tf.Counts fed) (words : List Str) :
    (words.foldl (fun df word => df.feedWord word 1) tf).Counts (fed + words) := by
  induction words generalizing tf fed with
  | nil =>
    rw [Multiset.coe_nil, add_zero]
    exact counts
  | cons word rest ih =>
    rw [List.foldl_cons, ← Multiset.cons_coe, ← Multiset.singleton_add, ← add_assoc]
    exact ih (counts.feedWord_one word)

/-- **The entries of another `tf`** with small counts. -/
theorem feedEntries (counts : tf.Counts fed) (copies : Str → ℕ) (entries : List (Str × BitVec 64))
    (held : ∀ entry ∈ entries, entry.2 = BitVec.ofNat 64 (copies entry.1) ∧
      0 < copies entry.1 ∧ copies entry.1 < 2 ^ 31) :
    (entries.foldl (fun df entry => df.feedWord entry.1 (entry.2.setWidth 32)) tf).Counts
      (fed + (entries.map fun entry => Multiset.replicate (copies entry.1) entry.1).sum) := by
  induction entries generalizing tf fed with
  | nil =>
    rw [List.map_nil, List.sum_nil, add_zero]
    exact counts
  | cons entry rest ih =>
    obtain ⟨same, some, small⟩ := held entry List.mem_cons_self
    rw [List.foldl_cons, List.map_cons, List.sum_cons, ← add_assoc, same, setWidth_ofNat]
    exact ih (counts.feedWord entry.1 some small) fun other listed =>
      held other (List.mem_cons_of_mem _ listed)

/-- **The entries of a `tf`** make up all it was fed. -/
theorem sum_entries (counts : tf.Counts fed) :
    (tf.words.toList.map fun entry =>
      Multiset.replicate (fed.count entry.1) entry.1).sum = fed := by
  have distinct : (tf.words.toList.map Prod.fst).Nodup := by
    rw [List.Nodup, List.pairwise_map]
    exact Std.TreeMap.distinct_keys_toList.imp fun {first second} differs same =>
      differs (by rw [same]; exact Std.ReflCmp.compare_self)
  have listed : (tf.words.toList.map Prod.fst).toFinset = fed.toFinset := by
    ext word
    rw [List.mem_toFinset, Multiset.mem_toFinset]
    constructor
    · intro member
      obtain ⟨entry, held, rfl⟩ := List.mem_map.mp member
      have found := Std.TreeMap.mem_toList_iff_getElem?_eq_some.mp held
      by_contra missing
      rw [counts.words, if_neg missing] at found
      cases found
    · intro member
      have found := counts.words word
      rw [if_pos member] at found
      exact List.mem_map.mpr ⟨_, Std.TreeMap.mem_toList_iff_getElem?_eq_some.mpr found, rfl⟩
  calc (tf.words.toList.map fun entry => Multiset.replicate (fed.count entry.1) entry.1).sum
      = ((tf.words.toList.map Prod.fst).map fun word =>
          Multiset.replicate (fed.count word) word).sum := by rw [List.map_map]; rfl
    _ = ∑ word ∈ fed.toFinset, Multiset.replicate (fed.count word) word := by
        rw [← List.sum_toFinset _ distinct, listed]
    _ = fed := by
        simp only [← Multiset.nsmul_singleton]
        exact Multiset.toFinset_sum_count_nsmul_eq fed

end Tf.Counts

/-! ### What a `tfidf` means -/

/-- The words of a text, each once. -/
def distinctWords (loc : Locale) (text : Str) : Multiset Str :=
  (loc.words text : Multiset Str).dedup

/-- The document frequencies have counted these words, and no file is under way. -/
structure Tfidf.Counts (tfidf : Tfidf) (fed : Multiset Str) : Prop where
  df : tfidf.df.Counts fed
  unique : tfidf.unique = ∅

namespace Tfidf.Counts

variable {loc : Locale} {tfidf other : Tfidf} {fed more : Multiset Str}

theorem new : Tfidf.new.Counts 0 := ⟨.new, rfl⟩

/-- **`merge`** adds what the other one has counted. -/
theorem merge (counts : tfidf.Counts fed) (others : other.Counts more)
    (small : ∀ word, more.count word < 2 ^ 31) : (tfidf.merge other).Counts (fed + more) where
  df := by
    have added := counts.df.feedEntries more.count other.df.words.toList fun entry listed => by
      have found := Std.TreeMap.mem_toList_iff_getElem?_eq_some.mp listed
      rw [others.df.words] at found
      split at found
      · rename_i member
        exact ⟨(Option.some.inj found).symm, Multiset.count_pos.mpr member, small entry.1⟩
      · cases found
    rwa [others.df.sum_entries] at added
  unique := counts.unique

/-- **The loop over a text** collects its words and leaves the frequencies alone. -/
theorem feedTokens (loc : Locale) (segments : List Str) (fed : Tfidf × Tf) :
    (segments.foldl (feedToken loc) fed).1.df = fed.1.df ∧
      ∀ word, word ∈ (segments.foldl (feedToken loc) fed).1.unique ↔
        word ∈ fed.1.unique ∨ word ∈ segments.map loc.toLower := by
  induction segments generalizing fed with
  | nil => simp
  | cons segment rest ih =>
    obtain ⟨same, members⟩ := ih (feedToken loc fed segment)
    refine ⟨same, fun word => (members word).trans ?_⟩
    have inserted : word ∈ (feedToken loc fed segment).1.unique ↔
        word ∈ fed.1.unique ∨ word = loc.toLower segment := by
      rw [feedToken, feedWordForOneFile, Std.TreeSet.mem_insert, Std.compare_eq_iff_eq, or_comm,
        @eq_comm _ word]
    rw [inserted, List.map_cons, List.mem_cons, or_assoc]

/-- **`update_tfidf`** adds each word of the text once, and clears the set. -/
theorem updateTfidf (counts : tfidf.Counts fed) (text : Str) (tf : Tf) :
    (tfidf.updateTfidf loc text tf).1.Counts (fed + distinctWords loc text) where
  df := by
    obtain ⟨same, members⟩ := feedTokens loc (loc.segment text) (tfidf, tf)
    have nodup : (((loc.segment text).foldl (feedToken loc) (tfidf, tf)).1.unique.toList :
        Multiset Str).Nodup := by
      rw [Multiset.coe_nodup]
      exact Std.TreeSet.distinct_toList.imp fun {first second} differs equal =>
        differs (by rw [equal]; exact Std.ReflCmp.compare_self)
    have listed : (((loc.segment text).foldl (feedToken loc) (tfidf, tf)).1.unique.toList :
        Multiset Str) = distinctWords loc text := by
      refine (Multiset.Nodup.ext nodup (Multiset.nodup_dedup _)).mpr fun word => ?_
      rw [Multiset.mem_coe, Std.TreeSet.mem_toList, members, counts.unique, Multiset.mem_dedup,
        Multiset.mem_coe, Locale.words]
      simp
    have added := counts.df.feedWords
      ((loc.segment text).foldl (feedToken loc) (tfidf, tf)).1.unique.toList
    rw [listed, ← same] at added
    exact added
  unique := rfl

/-- **A parser fed a row of texts** has counted each text's words once. -/
theorem feedTexts (counts : tfidf.Counts fed) (loc : Locale) (texts : List Str) :
    (texts.foldl (feedText loc) tfidf).Counts (fed + (texts.map (distinctWords loc)).sum) := by
  induction texts generalizing tfidf fed with
  | nil =>
    rw [List.map_nil, List.sum_nil, add_zero]
    exact counts
  | cons text rest ih =>
    rw [List.foldl_cons, List.map_cons, List.sum_cons, ← add_assoc]
    exact ih (counts.updateTfidf text .new)

end Tfidf.Counts

/-! ### Workers -/

section Workers

variable {loc : Locale} {texts : List Str} {step id : ℕ}

/-- **A word's count is its number of texts.** -/
theorem count_distinctWords (loc : Locale) (texts : List Str) (word : Str) :
    ((texts.map (distinctWords loc)).sum).count word =
      texts.countP fun text => word ∈ loc.words text := by
  induction texts with
  | nil => rfl
  | cons text rest ih =>
    have own : (distinctWords loc text).count word = if word ∈ loc.words text then 1 else 0 := by
      simp only [distinctWords, Multiset.count_dedup, Multiset.mem_coe]
    rw [List.map_cons, List.sum_cons, Multiset.count_add, ih, List.countP_cons, own, add_comm]
    simp

/-- The words of the documents of one worker. -/
def shard (loc : Locale) (texts : List Str) (step id : ℕ) : Multiset Str :=
  ((strided texts.length step id).map fun i => distinctWords loc (texts.getD i [])).sum

/-- **What a worker counts.** -/
theorem loadDocuments_counts : (Tfidf.loadDocuments loc texts step id).Counts
    (shard loc texts step id) := by
  have fed := Tfidf.Counts.new.feedTexts loc
    ((strided texts.length step id).map fun i => texts.getD i [])
  rw [List.foldl_map, List.map_map, zero_add] at fed
  exact fed

/-- No count of a worker exceeds the number of texts. -/
theorem count_shard_le (steps : 0 < step) (word : Str) :
    (shard loc texts step id).count word ≤ texts.length := by
  have counted := count_distinctWords loc
    ((strided texts.length step id).map fun i => texts.getD i []) word
  rw [List.map_map] at counted
  calc (shard loc texts step id).count word
      ≤ ((strided texts.length step id).map fun i => texts.getD i []).length := by
        rw [shard]
        exact counted.trans_le List.countP_le_length
    _ ≤ texts.length := by
        rw [List.length_map]
        exact strided_length_le steps

/-- **Merging workers** adds their shards. -/
theorem merge_counts {df : Tfidf} {fed : Multiset Str} (counts : df.Counts fed) (steps : 0 < step)
    (few : texts.length < 2 ^ 31) (order : List ℕ) :
    (order.foldl (fun df id => df.merge (Tfidf.loadDocuments loc texts step id)) df).Counts
      (fed + (order.map (shard loc texts step)).sum) := by
  induction order generalizing df fed with
  | nil =>
    rw [List.map_nil, List.sum_nil, add_zero]
    exact counts
  | cons id rest ih =>
    rw [List.foldl_cons, List.map_cons, List.sum_cons, ← add_assoc]
    exact ih (counts.merge loadDocuments_counts fun word =>
      Nat.lt_of_le_of_lt (count_shard_le steps word) few)

/-- **All shards together** are the texts, in whatever order the workers are merged. -/
theorem sum_shards {order : List ℕ} (steps : 0 < step) (all : order.Perm (List.range step)) :
    (order.map (shard loc texts step)).sum = (texts.map (distinctWords loc)).sum := by
  have flat : ∀ ids : List ℕ, (ids.map (shard loc texts step)).sum =
      ((ids.flatMap (strided texts.length step)).map fun i =>
        distinctWords loc (texts.getD i [])).sum := by
    intro ids
    induction ids with
    | nil => rfl
    | cons id rest ih =>
      rw [List.map_cons, List.sum_cons, ih, List.flatMap_cons, List.map_append, List.sum_append,
        shard]
  have indexed : (List.range texts.length).map (fun i => distinctWords loc (texts.getD i [])) =
      texts.map (distinctWords loc) := by
    refine List.ext_getElem (by simp) fun i _ within => ?_
    rw [List.length_map] at within
    simp [List.getElem?_eq_getElem within]
  rw [flat, ((flatMap_strided_perm steps all texts.length).map _).sum_eq, indexed]

/-- **Document frequencies do not depend on sharding**: workers in any order give the counts and the
total of one parser that is fed all texts, and every word's count is the number of texts that
contain it. -/
theorem sharding_irrelevant (loc : Locale) (texts : List Str) (few : texts.length < 2 ^ 31)
    {cpunum : ℕ} (some : 0 < cpunum) {order : List ℕ} (all : order.Perm (List.range cpunum)) :
    (∀ word : Str, (Tfidf.addDocuments loc texts cpunum order).df.words[word]? =
      (texts.foldl (Tfidf.feedText loc) .new).df.words[word]?) ∧
    (Tfidf.addDocuments loc texts cpunum order).df.totalWords =
      (texts.foldl (Tfidf.feedText loc) .new).df.totalWords ∧
    ∀ word : Str, ((Tfidf.addDocuments loc texts cpunum order).df.count word).toNat =
      texts.countP fun text => word ∈ loc.words text := by
  have merged : (Tfidf.addDocuments loc texts cpunum order).Counts
      (texts.map (distinctWords loc)).sum := by
    rw [← zero_add (texts.map (distinctWords loc)).sum, ← sum_shards some all]
    exact merge_counts .new some few order
  have single : (texts.foldl (Tfidf.feedText loc) .new).Counts
      (texts.map (distinctWords loc)).sum := by
    have counted := Tfidf.Counts.new.feedTexts loc texts
    rwa [zero_add] at counted
  refine ⟨fun word => ?_, ?_, fun word => ?_⟩
  · rw [merged.df.words, single.df.words]
  · rw [merged.df.total, single.df.total]
  · have bound := List.countP_le_length (p := fun text => word ∈ loc.words text) (l := texts)
    rw [merged.df.count_eq, count_distinctWords, BitVec.toNat_ofNat, Nat.mod_eq_of_lt]
    omega

/-- Two workers, the second merged first. -/
theorem sharding_irrelevant_two :
    (∀ word : Str, (Tfidf.addDocuments .ascii
      [['a', ' ', 'b', ' ', 'a'], ['b']] 2 [1, 0]).df.words[word]? =
      ([['a', ' ', 'b', ' ', 'a'], ['b']].foldl (Tfidf.feedText .ascii) .new).df.words[word]?) ∧
    (Tfidf.addDocuments .ascii [['a', ' ', 'b', ' ', 'a'], ['b']] 2 [1, 0]).df.totalWords =
      ([['a', ' ', 'b', ' ', 'a'], ['b']].foldl (Tfidf.feedText .ascii) .new).df.totalWords ∧
    ∀ word : Str, ((Tfidf.addDocuments .ascii
      [['a', ' ', 'b', ' ', 'a'], ['b']] 2 [1, 0]).df.count word).toNat =
      [['a', ' ', 'b', ' ', 'a'], ['b']].countP fun text => word ∈ Locale.ascii.words text :=
  sharding_irrelevant .ascii [['a', ' ', 'b', ' ', 'a'], ['b']] (by decide) (by decide) (by decide)

end Workers

end Wookie
