/-
**`tfidf::top`: the words of a text that say most about it.**

`top` sorts the words by term count over document count and keeps the first `num`. The comparator it
hands to `std::sort` is `f.freq >= s.freq`, which puts every value before itself. Rounding to
`double` is the parameter `rd`.

* `isTop_take` — words sorted by their ratios, cut off after `num`, are the top words.
* `top_meets_iff` — **`top` meets `std::sort`'s requirement, and returns the top words, if and only
  if the text has at most one word.**
* `top_undefined` — two words.
-/

import Mathlib.Algebra.Order.Field.Rat
import Wookie.Library.Algorithm
import Wookie.Similarity.Tfidf

namespace Wookie

open Library

/-! ### `tfidf::top` -/

/-- A `double` that is no negative number. -/
inductive Double
  | finite (value : ℚ)
  | infinity
  | nan
  deriving DecidableEq

/-- `>=` -/
def Double.ge : Double → Double → Bool
  | .finite first, .finite second => decide (second ≤ first)
  | .infinity, .finite _ => true
  | .infinity, .infinity => true
  | _, _ => false

/-- `(double)count / df`, where `rd` rounds. -/
def Double.div (rd : ℚ → ℚ) (count df : BitVec 64) : Double :=
  if df = 0 then if count = 0 then .nan else .infinity
  else .finite (rd (rd count.toNat / rd df.toNat))

/-- `struct word_info`. -/
structure WordInfo where
  word : Str
  freq : Double
  deriving DecidableEq

/-- `word_info::operator ()`. -/
def WordInfo.apply (f s : WordInfo) : Bool := f.freq.ge s.freq

/-- `wis`, before it is sorted. -/
def Tfidf.wordInfos (rd : ℚ → ℚ) (tfidf : Tfidf) (tf : Tf) : List WordInfo :=
  tf.words.toList.map fun it => ⟨it.1, Double.div rd it.2 (tfidf.df.count it.1)⟩

/-- `tfidf::top` may return this. -/
def Tfidf.Top (rd : ℚ → ℚ) (tfidf : Tfidf) (tf : Tf) (num : ℕ) (result : List WordInfo) : Prop :=
  ∃ wis, StdSort WordInfo.apply (tfidf.wordInfos rd tf) wis ∧ result = wis.take (min num wis.length)

/-! ### What it should return -/

/-- Term count over document count. -/
def Tfidf.ratio (tfidf : Tfidf) (tf : Tf) (word : Str) : ℚ :=
  (tf.count word).toNat / (tfidf.df.count word).toNat

/-- The entries are the `num` words with the largest ratios, largest first. -/
structure IsTop (tfidf : Tfidf) (tf : Tf) (num : ℕ) (result : List WordInfo) : Prop where
  length : result.length = min num tf.words.size
  distinct : (result.map WordInfo.word).Nodup
  words : ∀ info ∈ result, info.word ∈ tf.words
  sorted : result.Pairwise fun first second =>
    tfidf.ratio tf second.word ≤ tfidf.ratio tf first.word
  best : ∀ info ∈ result, ∀ word ∈ tf.words, word ∉ result.map WordInfo.word →
    tfidf.ratio tf word ≤ tfidf.ratio tf info.word

section Top

variable {rd : ℚ → ℚ} {tfidf : Tfidf} {tf : Tf} {num : ℕ}

theorem map_word_wordInfos (rd : ℚ → ℚ) (tfidf : Tfidf) :
    (tfidf.wordInfos rd tf).map WordInfo.word = tf.words.keys := by
  rw [Tfidf.wordInfos, List.map_map, ← Std.TreeMap.map_fst_toList_eq_keys]
  rfl

theorem length_wordInfos : (tfidf.wordInfos rd tf).length = tf.words.size := by
  rw [Tfidf.wordInfos, List.length_map, Std.TreeMap.length_toList]

/-- **Sorting by ratio and cutting off** gives the top words. -/
theorem isTop_take {wis : List WordInfo} (all : wis.Perm (tfidf.wordInfos rd tf))
    (sorted : wis.Pairwise fun first second =>
      tfidf.ratio tf second.word ≤ tfidf.ratio tf first.word) :
    IsTop tfidf tf num (wis.take (min num wis.length)) := by
  have words : (wis.map WordInfo.word).Perm tf.words.keys := by
    rw [← map_word_wordInfos rd tfidf]
    exact all.map _
  have split := List.take_append_drop (min num wis.length) wis
  refine ⟨?_, ?_, fun info taken => ?_, sorted.sublist (List.take_sublist _ _),
    fun info taken word held omitted => ?_⟩
  · rw [List.length_take, all.length_eq, length_wordInfos]
    omega
  · have distinct : (wis.map WordInfo.word).Nodup := words.nodup_iff.mpr (by
      rw [← Std.TreeMap.map_fst_toList_eq_keys, List.Nodup, List.pairwise_map]
      exact Std.TreeMap.distinct_keys_toList.imp fun differs same =>
        differs (Std.compare_eq_iff_eq.mpr same))
    exact distinct.sublist ((List.take_sublist _ _).map _)
  · rw [← Std.TreeMap.mem_keys, ← words.mem_iff]
    exact List.mem_map_of_mem ((List.take_sublist _ _).subset taken)
  · -- the word is behind the cut
    rw [← Std.TreeMap.mem_keys, ← words.mem_iff, ← split, List.map_append, List.mem_append] at held
    obtain ⟨other, behind, rfl⟩ := List.mem_map.mp (held.resolve_left omitted)
    rw [← split] at sorted
    exact (List.pairwise_append.mp sorted).2.2 info taken other behind

/-- A quotient by a count is a number: it is before itself. -/
theorem ge_div_self {count df : BitVec 64} (counted : df ≠ 0) :
    (Double.div rd count df).ge (Double.div rd count df) = true := by
  rw [Double.div, if_neg counted]
  exact decide_eq_true (le_refl _)

/-- **`top` is lawful and right** if and only if the text has at most one word. -/
theorem top_meets_iff (rd : ℚ → ℚ) (tfidf : Tfidf) (tf : Tf)
    (counted : ∀ word ∈ tf.words, 1 ≤ (tfidf.df.count word).toNat) (num : ℕ) :
    (StrictWeakOrdering WordInfo.apply (compared (tfidf.wordInfos rd tf)) ∧
      ∀ result, tfidf.Top rd tf num result → IsTop tfidf tf num result) ↔ tf.words.size ≤ 1 := by
  have refl : ∀ info ∈ tfidf.wordInfos rd tf, info.apply info = true := by
    intro info listed
    obtain ⟨it, held, rfl⟩ := List.mem_map.mp listed
    have member : it.1 ∈ tf.words := by
      rw [← Std.TreeMap.mem_keys, ← Std.TreeMap.map_fst_toList_eq_keys]
      exact List.mem_map_of_mem held
    refine ge_div_self fun zero => ?_
    have some := counted it.1 member
    rw [zero] at some
    exact absurd some (by decide)
  rw [strictWeakOrdering_iff_of_refl refl, length_wordInfos]
  refine ⟨And.left, fun few => ⟨few, ?_⟩⟩
  rintro result ⟨wis, sort, rfl⟩
  have lawful : StrictWeakOrdering WordInfo.apply (compared (tfidf.wordInfos rd tf)) := by
    rw [strictWeakOrdering_iff_of_refl refl, length_wordInfos]
    exact few
  obtain ⟨all, -⟩ := sort lawful
  refine isTop_take all ?_
  have short : wis.length ≤ 1 := by
    rw [all.length_eq, length_wordInfos]
    exact few
  cases wis with
  | nil => exact .nil
  | cons info rest =>
    have alone : rest = [] := List.length_eq_zero_iff.mp (by simpa using short)
    rw [alone]
    exact List.pairwise_singleton _ _

end Top

/-- A text of one word. -/
theorem top_meets_iff_one :
    StrictWeakOrdering WordInfo.apply (compared
      ((Tfidf.new.feedText .ascii ['w']).wordInfos id (Tf.new.feedWord ['w'] 1))) ∧
    ∀ result, (Tfidf.new.feedText .ascii ['w']).Top id (Tf.new.feedWord ['w'] 1) 3 result →
      IsTop (Tfidf.new.feedText .ascii ['w']) (Tf.new.feedWord ['w'] 1) 3 result := by
  have counted : ∀ word ∈ (Tf.new.feedWord ['w'] 1).words.keys,
      1 ≤ ((Tfidf.new.feedText .ascii ['w']).df.count word).toNat := by
    decide +kernel
  exact (top_meets_iff id (Tfidf.new.feedText .ascii ['w']) (Tf.new.feedWord ['w'] 1)
    (fun word held => counted word (Std.TreeMap.mem_keys.mpr held)) 3).mpr (by decide +kernel)

/-- **Two words.** -/
theorem top_undefined : ¬ StrictWeakOrdering WordInfo.apply (compared
    ((Tfidf.new.feedText .ascii ['a', ' ', 'b']).wordInfos id
      (Tfidf.new.updateTfidf .ascii ['a', ' ', 'b'] .new).2)) := by
  intro lawful
  have before := lawful.irreflexive ⟨['a'], .finite 1⟩ (by decide +kernel)
  revert before
  decide +kernel

end Wookie
