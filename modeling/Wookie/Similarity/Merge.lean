/-
**`tfidf::merge` on counters of any size.**

`merge` hands every counter of the other object, a `size_t`, to the `int` that `feed_word` takes,
which `feed_word` adds to a `size_t` again.

* `count_merge`, `totalWords_merge` — what `merge` adds: every counter by way of an `int`.
* `Tf.Consistent` — the total is the sum of the counters; every operation keeps it.
* `merge_exact_iff` — one `merge` is exact if and only if every counter of the merged object comes
  back from the `int`.
* `merges_exact_iff` — **in a run of merges every one is exact if and only if, each time, the sums
  collected so far by the merged object do.**
* `merges_lost` — a count that has reached `2 ^ 31` is subtracted.
-/

import Mathlib.Algebra.BigOperators.Group.Finset.Piecewise
import Mathlib.Data.BitVec
import Wookie.Library.Calls
import Wookie.Similarity.Tfidf

namespace Wookie

open Library

/-! ### Counters -/

/-- A `size_t` by way of an `int`. -/
def viaInt (count : BitVec 64) : BitVec 64 := (count.setWidth 32).signExtend 64

/-- The `int` keeps the number: it is below `2 ^ 31`, or as far below `2 ^ 64`. -/
def KeptByInt (count : ℕ) : Prop := count < 2 ^ 31 ∨ 2 ^ 64 - 2 ^ 31 ≤ count

theorem viaInt_zero : viaInt 0 = 0 := by decide

theorem viaInt_eq_iff (count : BitVec 64) : viaInt count = count ↔ KeptByInt count.toNat := by
  have bound := count.isLt
  have low : (count.setWidth 32).toNat = count.toNat % 2 ^ 32 := BitVec.toNat_setWidth ..
  have sign : (count.setWidth 32).msb = decide (2 ^ 31 ≤ count.toNat % 2 ^ 32) := by
    rw [BitVec.msb_eq_decide, low]
  rw [← BitVec.toNat_inj, viaInt, BitVec.toNat_signExtend, BitVec.toNat_setWidth, sign, low,
    KeptByInt]
  by_cases negative : 2 ^ 31 ≤ count.toNat % 2 ^ 32
  · simp only [negative, decide_true, if_true]
    omega
  · simp only [negative, decide_false, Bool.false_eq_true, if_false]
    omega

/-! ### What `feed_word` and `merge` add -/

namespace Tf

variable {tf other : Tf}

theorem count_new (word : Str) : Tf.new.count word = 0 := by
  rw [Tf.count, Tf.new, Std.TreeMap.getElem?_emptyc]
  rfl

theorem words_feedWord (tf : Tf) (word : Str) (num : BitVec 32) :
    (tf.feedWord word num).words = tf.words.insert word (tf.count word + num.signExtend 64) := by
  rw [Tf.feedWord, Tf.count]
  cases tf.words[word]? with
  | none => rw [Option.getD_none, zero_add]
  | some count => rfl

theorem count_feedWord (tf : Tf) (word : Str) (num : BitVec 32) (other : Str) :
    (tf.feedWord word num).count other =
      if word = other then tf.count word + num.signExtend 64 else tf.count other := by
  rw [Tf.count, words_feedWord, Std.TreeMap.getElem?_insert]
  by_cases same : word = other
  · rw [if_pos (Std.compare_eq_iff_eq.mpr same), if_pos same, Option.getD_some]
  · rw [if_neg fun equal => same (Std.compare_eq_iff_eq.mp equal), if_neg same, Tf.count]

/-- The loop of `merge`. -/
def feedEntries (tf : Tf) (entries : List (Str × BitVec 64)) : Tf :=
  entries.foldl (fun df entry => df.feedWord entry.1 (entry.2.setWidth 32)) tf

theorem count_feedEntries_of_not_mem {entries : List (Str × BitVec 64)} {word : Str}
    (missing : word ∉ entries.map Prod.fst) :
    (tf.feedEntries entries).count word = tf.count word := by
  induction entries generalizing tf with
  | nil => rfl
  | cons entry rest ih =>
    rw [List.map_cons, List.mem_cons, not_or] at missing
    have kept : (tf.feedWord entry.1 (entry.2.setWidth 32)).count word = tf.count word := by
      rw [count_feedWord, if_neg (Ne.symm missing.1)]
    exact (ih missing.2).trans kept

theorem count_feedEntries_of_mem {entries : List (Str × BitVec 64)}
    (distinct : (entries.map Prod.fst).Nodup) {word : Str} {count : BitVec 64}
    (listed : (word, count) ∈ entries) :
    (tf.feedEntries entries).count word = tf.count word + viaInt count := by
  induction entries generalizing tf with
  | nil => cases listed
  | cons entry rest ih =>
    rw [List.map_cons, List.nodup_cons] at distinct
    rcases List.mem_cons.mp listed with first | later
    · subst first
      have added : (tf.feedWord word (count.setWidth 32)).count word =
          tf.count word + viaInt count := by
        rw [count_feedWord, if_pos rfl, viaInt]
      exact (count_feedEntries_of_not_mem distinct.1).trans added
    · have differs : entry.1 ≠ word := fun same =>
        distinct.1 (same ▸ List.mem_map.mpr ⟨_, later, rfl⟩)
      have kept : (tf.feedWord entry.1 (entry.2.setWidth 32)).count word = tf.count word := by
        rw [count_feedWord, if_neg differs]
      rw [← kept]
      exact ih distinct.2 later

theorem totalWords_feedEntries (tf : Tf) (entries : List (Str × BitVec 64)) :
    (tf.feedEntries entries).totalWords =
      tf.totalWords + (entries.map fun entry => viaInt entry.2).sum := by
  induction entries generalizing tf with
  | nil => exact (BitVec.add_zero _).symm
  | cons entry rest ih =>
    rw [List.map_cons, List.sum_cons, ← BitVec.add_assoc]
    exact ih (tf.feedWord entry.1 (entry.2.setWidth 32))

/-! ### The words of a `tf` -/

theorem distinct_words (tf : Tf) : (tf.words.toList.map Prod.fst).Nodup := by
  rw [List.Nodup, List.pairwise_map]
  exact Std.TreeMap.distinct_keys_toList.imp fun {first second} differs same =>
    differs (Std.compare_eq_iff_eq.mpr same)

/-- The entries are the words that are there, each with its count. -/
theorem mem_words_iff {word : Str} {count : BitVec 64} :
    (word, count) ∈ tf.words.toList ↔ word ∈ tf.words ∧ tf.count word = count := by
  rw [Std.TreeMap.mem_toList_iff_getElem?_eq_some, Tf.count, Std.TreeMap.mem_iff_isSome_getElem?]
  cases tf.words[word]? with
  | none => simp
  | some held => simp

/-- A word that is not there counts zero. -/
theorem count_of_not_mem {word : Str} (missing : word ∉ tf.words) : tf.count word = 0 := by
  rw [Tf.count, Std.TreeMap.getElem?_eq_none missing]
  rfl

end Tf

namespace Tfidf

/-- **`merge` adds every counter by way of an `int`.** -/
theorem count_merge (tfidf other : Tfidf) (word : Str) :
    (tfidf.merge other).df.count word = tfidf.df.count word + viaInt (other.df.count word) := by
  by_cases member : word ∈ other.df.words
  · exact Tf.count_feedEntries_of_mem other.df.distinct_words
      (Tf.mem_words_iff.mpr ⟨member, rfl⟩)
  · have missing : word ∉ other.df.words.toList.map Prod.fst := by
      rwa [Std.TreeMap.map_fst_toList_eq_keys, Std.TreeMap.mem_keys]
    rw [Tf.count_of_not_mem member, viaInt_zero, add_zero]
    exact Tf.count_feedEntries_of_not_mem missing

theorem totalWords_merge (tfidf other : Tfidf) : (tfidf.merge other).df.totalWords =
    tfidf.df.totalWords + (other.df.words.toList.map fun entry => viaInt entry.2).sum :=
  Tf.totalWords_feedEntries tfidf.df other.df.words.toList

end Tfidf

/-! ### The total -/

/-- The total is the sum of the counters. -/
def Tf.Consistent (tf : Tf) : Prop := tf.totalWords = (tf.words.toList.map Prod.snd).sum

namespace Tf.Consistent

variable {tf : Tf}

/-- The sum, word by word. -/
theorem sum_entries (tf : Tf) : (tf.words.toList.map Prod.snd).sum =
    ∑ word ∈ tf.words.keys.toFinset, tf.count word := by
  have entries : tf.words.toList.map Prod.snd = tf.words.keys.map tf.count := by
    rw [← Std.TreeMap.map_fst_toList_eq_keys, List.map_map]
    refine List.map_congr_left fun entry listed => ?_
    exact (Tf.mem_words_iff.mp listed).2.symm
  have distinct : tf.words.keys.Nodup := by
    rw [← Std.TreeMap.map_fst_toList_eq_keys]
    exact tf.distinct_words
  rw [entries, List.sum_toFinset _ distinct]

theorem new : Tf.new.Consistent := rfl

/-- **`feed_word` keeps the total.** -/
theorem feedWord (consistent : tf.Consistent) (word : Str) (num : BitVec 32) :
    (tf.feedWord word num).Consistent := by
  have total : tf.totalWords = ∑ other ∈ tf.words.keys.toFinset, tf.count other :=
    consistent.trans (sum_entries tf)
  have keys : (tf.feedWord word num).words.keys.toFinset = insert word tf.words.keys.toFinset := by
    ext other
    rw [words_feedWord, List.mem_toFinset, Std.TreeMap.mem_keys, Std.TreeMap.mem_insert,
      Finset.mem_insert, List.mem_toFinset, Std.TreeMap.mem_keys, Std.compare_eq_iff_eq, eq_comm]
  -- a word that was not there counted zero
  have before : ∑ other ∈ insert word tf.words.keys.toFinset, tf.count other =
      ∑ other ∈ tf.words.keys.toFinset, tf.count other := by
    by_cases member : word ∈ tf.words.keys.toFinset
    · rw [Finset.insert_eq_of_mem member]
    · rw [Finset.sum_insert member, count_of_not_mem, zero_add]
      rwa [List.mem_toFinset, Std.TreeMap.mem_keys] at member
  have after : ∀ other, (tf.feedWord word num).count other =
      tf.count other + if other = word then num.signExtend 64 else 0 := by
    intro other
    rw [count_feedWord]
    by_cases same : word = other
    · rw [if_pos same, if_pos same.symm, same]
    · rw [if_neg same, if_neg (Ne.symm same), add_zero]
  show (tf.feedWord word num).totalWords = _
  rw [sum_entries, keys, Finset.sum_congr rfl fun other _ => after other, Finset.sum_add_distrib,
    before, Finset.sum_ite_eq', if_pos (Finset.mem_insert_self _ _), ← total]
  rfl

theorem foldl {β : Type} (step : Tf → β → Tf)
    (kept : ∀ tf x, tf.Consistent → (step tf x).Consistent) (consistent : tf.Consistent)
    (xs : List β) : (xs.foldl step tf).Consistent := by
  induction xs generalizing tf with
  | nil => exact consistent
  | cons x rest ih => exact ih (kept tf x consistent)

/-- **`merge` keeps the total.** -/
theorem merge {tfidf : Tfidf} (consistent : tfidf.df.Consistent) (other : Tfidf) :
    (tfidf.merge other).df.Consistent :=
  foldl _ (fun _ entry held => held.feedWord entry.1 (entry.2.setWidth 32)) consistent _

/-- **`update_collected_df` keeps the total.** -/
theorem updateCollectedDf {tfidf : Tfidf} (consistent : tfidf.df.Consistent) :
    tfidf.updateCollectedDf.df.Consistent :=
  foldl _ (fun _ word held => held.feedWord word 1) consistent _

end Tf.Consistent

/-! ### Statistics -/

/-- What a `tfidf` says, in numbers. -/
@[ext] structure Statistics where
  counts : Str → ℕ
  total : ℕ

namespace Statistics

instance : Add Statistics :=
  ⟨fun first second =>
    ⟨fun word => first.counts word + second.counts word, first.total + second.total⟩⟩

theorem add_comm (first second : Statistics) : first + second = second + first := by
  ext
  · exact Nat.add_comm _ _
  · exact Nat.add_comm _ _

theorem add_assoc (first second third : Statistics) :
    first + second + third = first + (second + third) := by
  ext
  · exact Nat.add_assoc _ _ _
  · exact Nat.add_assoc _ _ _

/-- Every number is a `size_t`. -/
structure Small (statistics : Statistics) : Prop where
  counts : ∀ word, statistics.counts word < 2 ^ 64
  total : statistics.total < 2 ^ 64

theorem Small.right {first second : Statistics} (small : (first + second).Small) :
    second.Small where
  counts word := (Nat.le_add_left _ _).trans_lt (small.counts word)
  total := (Nat.le_add_left _ _).trans_lt small.total

theorem Small.left {first second : Statistics} (small : (first + second).Small) : first.Small where
  counts word := (Nat.le_add_right _ _).trans_lt (small.counts word)
  total := (Nat.le_add_right _ _).trans_lt small.total

/-- Every count is kept by an `int`. -/
def KeptByInt (statistics : Statistics) : Prop := ∀ word, Wookie.KeptByInt (statistics.counts word)

end Statistics

/-- The statistics of a `tfidf`. -/
def Tfidf.statistics (tfidf : Tfidf) : Statistics :=
  ⟨fun word => (tfidf.df.count word).toNat, tfidf.df.totalWords.toNat⟩

/-- Sums that stay small are sums of numbers. -/
theorem toNat_add_eq {first second added : BitVec 64}
    (small : first.toNat + second.toNat < 2 ^ 64) :
    (first + added).toNat = first.toNat + second.toNat ↔ added = second := by
  have sum : (first + second).toNat = first.toNat + second.toNat := by
    rw [BitVec.toNat_add, Nat.mod_eq_of_lt small]
  rw [← sum, BitVec.toNat_inj, add_right_inj]

/-- **One `merge` is exact** if and only if every count of the merged object is kept by an `int`. -/
theorem merge_exact_iff {tfidf other : Tfidf} (consistent : other.df.Consistent)
    (small : (tfidf.statistics + other.statistics).Small) :
    (tfidf.merge other).statistics = tfidf.statistics + other.statistics ↔
      other.statistics.KeptByInt := by
  constructor
  · intro exact_ word
    have count : ((tfidf.merge other).df.count word).toNat =
        (tfidf.df.count word).toNat + (other.df.count word).toNat :=
      congrArg (fun statistics => statistics.counts word) exact_
    rw [Tfidf.count_merge, toNat_add_eq (small.counts word)] at count
    exact (viaInt_eq_iff _).mp count
  · intro kept
    have same : ∀ word, viaInt (other.df.count word) = other.df.count word := fun word =>
      (viaInt_eq_iff _).mpr (kept word)
    have entries : (other.df.words.toList.map fun entry => viaInt entry.2).sum =
        other.df.totalWords := by
      refine (congrArg List.sum (List.map_congr_left fun entry listed => ?_)).trans consistent.symm
      rw [← (Tf.mem_words_iff.mp listed).2, same]
    ext word
    · show ((tfidf.merge other).df.count word).toNat = _
      rw [Tfidf.count_merge]
      exact (toNat_add_eq (small.counts word)).mpr (same word)
    · show (tfidf.merge other).df.totalWords.toNat = _
      rw [Tfidf.totalWords_merge]
      exact (toNat_add_eq small.total).mpr entries

/-- **Merging is commutative** on counts an `int` keeps. -/
theorem merge_comm {first second : Tfidf} (consistent : first.df.Consistent)
    (consistent' : second.df.Consistent) (small : (first.statistics + second.statistics).Small)
    (kept : first.statistics.KeptByInt) (kept' : second.statistics.KeptByInt) :
    (first.merge second).statistics = (second.merge first).statistics := by
  have other : (second.statistics + first.statistics).Small := by
    rwa [Statistics.add_comm]
  rw [(merge_exact_iff consistent' small).mpr kept', (merge_exact_iff consistent other).mpr kept,
    Statistics.add_comm]

/-- **Merging is associative** on counts an `int` keeps, as long as it keeps the sums that are
merged on. -/
theorem merge_assoc {first second third : Tfidf} (consistent : second.df.Consistent)
    (consistent' : third.df.Consistent)
    (small : (first.statistics + second.statistics + third.statistics).Small)
    (kept : second.statistics.KeptByInt) (kept' : third.statistics.KeptByInt)
    (sums : (second.statistics + third.statistics).KeptByInt) :
    ((first.merge second).merge third).statistics =
      (first.merge (second.merge third)).statistics := by
  have small' : (first.statistics + (second.statistics + third.statistics)).Small := by
    rwa [← Statistics.add_assoc]
  have left := (merge_exact_iff consistent small.left).mpr kept
  have right := (merge_exact_iff consistent' small'.right).mpr kept'
  rw [← left] at small
  rw [← right] at small' sums
  rw [(merge_exact_iff consistent' small).mpr kept',
    (merge_exact_iff (consistent.merge third) small').mpr sums, left, right, Statistics.add_assoc]

/-- A word fed `INT_MAX` times, and once more. -/
def large : Tfidf := ⟨(Tf.new.feedWord ['w'] 0x7fffffff).feedWord ['w'] 1, ∅⟩

/-- **A count of `2 ^ 31`** is subtracted. -/
theorem merges_lost : large.df.Consistent ∧
    (Tfidf.new.statistics + large.statistics).Small ∧
    (Tfidf.new.merge large).statistics ≠ Tfidf.new.statistics + large.statistics := by
  have nothing : ∀ word, Tfidf.new.statistics.counts word = 0 := fun word => by
    show (Tf.new.count word).toNat = 0
    rw [Tf.count_new]
    rfl
  refine ⟨(Tf.Consistent.new.feedWord _ _).feedWord _ _, ⟨fun word => ?_, ?_⟩, fun same => ?_⟩
  · show Tfidf.new.statistics.counts word + large.statistics.counts word < 2 ^ 64
    rw [nothing, Nat.zero_add]
    exact (large.df.count word).isLt
  · show 0 + large.df.totalWords.toNat < 2 ^ 64
    rw [Nat.zero_add]
    exact large.df.totalWords.isLt
  · have counts : ((Tfidf.new.merge large).df.count ['w']).toNat =
        Tfidf.new.statistics.counts ['w'] + (large.df.count ['w']).toNat :=
      congrArg (fun statistics => statistics.counts ['w']) same
    have held : large.df.count ['w'] = 0x80000000#64 := by decide +kernel
    rw [Tfidf.count_merge, nothing, held, Tfidf.new, Tf.count_new] at counts
    revert counts
    decide

/-! ### Runs of merges -/

section Runs

variable {ι : Type} [DecidableEq ι]

/-- `objects[call.1].merge(objects[call.2])`. -/
def mergeInto (objects : ι → Tfidf) (call : ι × ι) : ι → Tfidf :=
  Function.update objects call.1 ((objects call.1).merge (objects call.2))

/-- What the call should do. -/
def addInto (statistics : ι → Statistics) (call : ι × ι) : ι → Statistics :=
  Function.update statistics call.1 (statistics call.1 + statistics call.2)

/-- The statistics of all objects. -/
def statisticsOf (objects : ι → Tfidf) (i : ι) : Statistics := (objects i).statistics

/-- The call adds every counter and the total, and leaves every other object alone. -/
structure MergesExactly (objects : ι → Tfidf) (call : ι × ι) : Prop where
  sum : (mergeInto objects call call.1).statistics =
    (objects call.1).statistics + (objects call.2).statistics
  others : ∀ i, i ≠ call.1 → mergeInto objects call i = objects i

theorem mergesExactly_iff {objects : ι → Tfidf} {call : ι × ι}
    (consistent : (objects call.2).df.Consistent)
    (small : ((objects call.1).statistics + (objects call.2).statistics).Small) :
    MergesExactly objects call ↔ (objects call.2).statistics.KeptByInt := by
  rw [← merge_exact_iff consistent small]
  constructor
  · intro exact_
    have sum := exact_.sum
    rwa [mergeInto, Function.update_self] at sum
  · intro sum
    refine ⟨?_, fun i differs => Function.update_of_ne differs _ _⟩
    rwa [mergeInto, Function.update_self]

/-- An exact call does what it should. -/
theorem MergesExactly.statistics_eq {objects : ι → Tfidf} {call : ι × ι}
    (exact_ : MergesExactly objects call) :
    statisticsOf (mergeInto objects call) = addInto (statisticsOf objects) call := by
  funext i
  unfold statisticsOf
  by_cases into : i = call.1
  · subst into
    rw [exact_.sum, addInto, Function.update_self]
  · rw [exact_.others i into, addInto, Function.update_of_ne into]

theorem consistent_mergeInto {objects : ι → Tfidf} (consistent : ∀ i, (objects i).df.Consistent)
    (call : ι × ι) (i : ι) : (mergeInto objects call i).df.Consistent := by
  unfold mergeInto
  by_cases into : i = call.1
  · rw [into, Function.update_self]
    exact (consistent call.1).merge _
  · rw [Function.update_of_ne into]
    exact consistent i

/-- The sums stay small. -/
def SumSmall (statistics : ι → Statistics) (call : ι × ι) : Prop :=
  (statistics call.1 + statistics call.2).Small

/-- The `int` keeps every count of the merged object. -/
def MergedKept (statistics : ι → Statistics) (call : ι × ι) : Prop :=
  (statistics call.2).KeptByInt

/-- **A run of merges**: every one is exact if and only if, each time, the sums collected by the
merged object are kept by an `int`; then every object ends with its sums. So merging is commutative
and associative as far as an `int` keeps what is merged. -/
theorem merges_exact_iff (objects : ι → Tfidf) (consistent : ∀ i, (objects i).df.Consistent)
    (calls : List (ι × ι)) (small : EachCall addInto SumSmall (statisticsOf objects) calls) :
    (EachCall mergeInto MergesExactly objects calls ↔
      EachCall addInto MergedKept (statisticsOf objects) calls) ∧
    (EachCall addInto MergedKept (statisticsOf objects) calls →
      statisticsOf (calls.foldl mergeInto objects) = calls.foldl addInto (statisticsOf objects)) ∧
    (∀ i j, SumSmall (statisticsOf objects) (i, j) → (objects i).statistics.KeptByInt →
      (objects j).statistics.KeptByInt →
      ((objects i).merge (objects j)).statistics = ((objects j).merge (objects i)).statistics) ∧
    (∀ i j k, ((objects i).statistics + (objects j).statistics + (objects k).statistics).Small →
      (objects j).statistics.KeptByInt → (objects k).statistics.KeptByInt →
      ((objects j).statistics + (objects k).statistics).KeptByInt →
      (((objects i).merge (objects j)).merge (objects k)).statistics =
        ((objects i).merge ((objects j).merge (objects k))).statistics) := by
  have same : EachCall mergeInto MergesExactly objects calls ↔
      EachCall addInto MergedKept (statisticsOf objects) calls :=
    eachCall_iff_of_simulates (fun objects => ∀ i, (objects i).df.Consistent)
      (fun _ call held => consistent_mergeInto held call)
      (fun _ call held fits => mergesExactly_iff (held call.2) fits)
      (fun _ _ exact_ => exact_.statistics_eq) consistent small
  refine ⟨same, fun kept => (same.mpr kept).view_foldl fun _ _ exact_ => exact_.statistics_eq,
    fun i j sum kept kept' => ?_, fun i j k sum kept kept' sums => ?_⟩
  · exact merge_comm (consistent i) (consistent j) sum kept kept'
  · exact merge_assoc (consistent j) (consistent k) sum kept kept' sums

/-- A word fed once. -/
def once : Tfidf := ⟨Tf.new.feedWord ['w'] 1, ∅⟩

/-- Two parsers that have seen the word once each, merged there and back. -/
theorem merges_exact_iff_once :
    EachCall mergeInto MergesExactly (fun _ : Bool => once) [(true, false), (false, true)] := by
  have few : ∀ word, once.statistics.counts word ≤ 1 := fun word => by
    show (once.df.count word).toNat ≤ 1
    rw [once, Tf.count_feedWord, Tf.count_new, Tf.count_new]
    split <;> decide
  have one : once.statistics.total = 1 := by decide
  have twice : (once.statistics + once.statistics).Small := by
    refine ⟨fun word => ?_, ?_⟩
    · have bound := few word
      show once.statistics.counts word + once.statistics.counts word < 2 ^ 64
      omega
    · show once.statistics.total + once.statistics.total < 2 ^ 64
      omega
  have thrice : (once.statistics + (once.statistics + once.statistics)).Small := by
    refine ⟨fun word => ?_, ?_⟩
    · have bound := few word
      show once.statistics.counts word +
        (once.statistics.counts word + once.statistics.counts word) < 2 ^ 64
      omega
    · show once.statistics.total + (once.statistics.total + once.statistics.total) < 2 ^ 64
      omega
  refine (merges_exact_iff (fun _ => once) (fun _ => Tf.Consistent.new.feedWord _ _)
    [(true, false), (false, true)] ⟨twice, thrice, trivial⟩).1.mpr ⟨fun word => ?_, fun word => ?_,
      trivial⟩
  · have bound := few word
    exact .inl (by show once.statistics.counts word < 2 ^ 31; omega)
  · have bound := few word
    refine .inl ?_
    show once.statistics.counts word + once.statistics.counts word < 2 ^ 31
    omega

end Runs

end Wookie
