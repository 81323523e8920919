/-
**N-grams and their intersections: `generate_ngrams` and `intersect`.**

`generate_ngrams` keeps a window of the last characters of a text, packs every four of them into a
`long`, and sorts what it has pushed through a set. `intersect` runs `std::set_intersection` into a
vector as long as the shorter of the two.

* `mem_generateNgrams` — the n-grams are the packed windows of the text.
* `packed_injOn` — four characters of at most two bytes fit a `long`, and are read back from it.
* `intersect_eq` — the common n-grams, and no write behind the end of the buffer.
* `ngrams_overlap` — **intersections count the four-character strings that texts have in common.**
-/

import Mathlib.Algebra.Order.BigOperators.Group.List
import Mathlib.Data.Nat.Digits.Defs
import Mathlib.Data.Set.Card
import Std.Data.TreeSet.Lemmas
import Wookie.Library.Algorithm
import Wookie.Record

namespace Wookie

open Library

/-! ### `generate_ngrams` -/

/-- `NGRAM_NUM`. -/
def ngramNum : ℕ := 4

/-- `memcpy(&tmp_ngram, txt.data(), std::min(sizeof(lngram), txt.size()))`, on a little-endian
platform with 64-bit `long`. -/
def lngram (txt : Bytes) : ℤ :=
  (BitVec.ofNat 64 (Nat.ofDigits 256 ((txt.take 8).map UInt8.toNat))).toInt

/-- The variables of the loop: `ng` and `ngrams`. -/
structure NgramLoop where
  ng : List Bytes
  ngrams : List ℤ

/-- The body of the loop. -/
def NgramLoop.body (loop : NgramLoop) (it : Bytes) : NgramLoop :=
  let ng := loop.ng ++ [it]
  if ng.length = ngramNum then ⟨ng.tail, loop.ngrams ++ [lngram ng.flatten]⟩
  else ⟨ng, loop.ngrams⟩

/-- `parser::generate_ngrams`. `characters` is `ssegment_index` with the rule `character_any`: the
characters of a text. -/
def generateNgrams (characters : Bytes → List Bytes) (text : Bytes) (ngrams : List ℤ) : List ℤ :=
  let loop := (characters text).foldl NgramLoop.body ⟨[], ngrams⟩
  (Std.TreeSet.ofList loop.ngrams).toList

/-- The loop has read these characters, starting with `ngrams`. -/
structure NgramLoop.Read (ngrams : List ℤ) (read : List Bytes) (loop : NgramLoop) : Prop where
  suffix : loop.ng <:+ read
  length : loop.ng.length = min (ngramNum - 1) read.length
  pushed : ∀ x, x ∈ loop.ngrams ↔
    x ∈ ngrams ∨ ∃ window, window.length = ngramNum ∧ window <:+: read ∧ lngram window.flatten = x

/-- **One character more**: the window that ends with it is pushed. -/
theorem NgramLoop.Read.body {ngrams : List ℤ} {read : List Bytes} {loop : NgramLoop}
    (held : loop.Read ngrams read) (it : Bytes) : (loop.body it).Read ngrams (read ++ [it]) := by
  have suffix : loop.ng ++ [it] <:+ read ++ [it] :=
    List.suffix_concat_iff.mpr (.inr ⟨_, rfl, held.suffix⟩)
  have length : (loop.ng ++ [it]).length = min ngramNum (read ++ [it]).length := by
    rw [List.length_append, List.length_append, held.length, ngramNum, List.length_singleton]
    omega
  dsimp only [NgramLoop.body]
  split
  · rename_i full
    refine ⟨(List.tail_suffix _).trans suffix, ?_, fun x => ?_⟩
    · rw [full] at length
      rw [List.length_tail, full]
      omega
    · have last : ∀ window : List Bytes, window.length = ngramNum →
          (window <:+ read ++ [it] ↔ window = loop.ng ++ [it]) := by
        intro window size
        constructor
        · intro other
          have within := List.suffix_of_suffix_length_le other suffix (by rw [size, full])
          exact within.eq_of_length (by rw [size, full])
        · rintro rfl
          exact suffix
      simp only [List.mem_append, List.mem_singleton, held.pushed, List.infix_concat_iff]
      constructor
      · rintro ((old | ⟨window, size, within, rfl⟩) | rfl)
        · exact .inl old
        · exact .inr ⟨window, size, .inr within, rfl⟩
        · exact .inr ⟨_, full, .inl suffix, rfl⟩
      · rintro (old | ⟨window, size, ending | within, rfl⟩)
        · exact .inl (.inl old)
        · rw [(last window size).mp ending]
          exact .inr rfl
        · exact .inl (.inr ⟨window, size, within, rfl⟩)
  · rename_i short
    have few : (read ++ [it]).length < ngramNum := by omega
    refine ⟨suffix, ?_, fun x => ?_⟩
    · rw [length]
      omega
    · rw [held.pushed]
      -- there is no window yet, neither before nor after
      have none : ∀ window : List Bytes, window.length = ngramNum → ¬ window <:+: read ++ [it] :=
        fun window size within => by
          have bound := within.length_le
          omega
      have none' : ∀ window : List Bytes, window.length = ngramNum → ¬ window <:+: read :=
        fun window size within => none window size (within.trans (List.prefix_append _ _).isInfix)
      grind

theorem NgramLoop.Read.foldl {ngrams : List ℤ} {read : List Bytes} {loop : NgramLoop}
    (held : loop.Read ngrams read) (rest : List Bytes) :
    (rest.foldl NgramLoop.body loop).Read ngrams (read ++ rest) := by
  induction rest generalizing read loop with
  | nil => rwa [List.append_nil]
  | cons it rest ih =>
    rw [List.append_cons]
    exact ih (held.body it)

section Generated

variable {characters : Bytes → List Bytes} {text : Bytes} {ngrams : List ℤ}

/-- **The n-grams are the packed windows**, and what was there before. -/
theorem mem_generateNgrams {x : ℤ} : x ∈ generateNgrams characters text ngrams ↔
    x ∈ ngrams ∨ ∃ window, window.length = ngramNum ∧ window <:+: characters text ∧
      lngram window.flatten = x := by
  have start : NgramLoop.Read ngrams [] ⟨[], ngrams⟩ := by
    refine ⟨List.suffix_refl _, rfl, fun x => ⟨.inl, ?_⟩⟩
    rintro (old | ⟨window, size, within, -⟩)
    · exact old
    · rw [List.infix_nil.mp within] at size
      cases size
  have read := start.foldl (characters text)
  rw [generateNgrams, Std.TreeSet.mem_toList, Std.TreeSet.mem_ofList, List.contains_iff_mem,
    read.pushed, List.nil_append]

/-- **They are strictly increasing.** -/
theorem generateNgrams_pairwise : (generateNgrams characters text ngrams).Pairwise (· < ·) :=
  Std.TreeSet.ordered_toList.imp Int.compare_eq_lt.mp

end Generated

/-! ### Characters in a `long` -/

/-- The bytes of a string. -/
def encoded (chars : List Char) : Bytes := chars.flatMap String.utf8EncodeChar

/-- A string packed into a `long`. -/
def packed (chars : List Char) : ℤ := lngram (encoded chars)

/-- utf8 is read back. -/
theorem encoded_injective : Function.Injective encoded := by
  intro first second same
  have bytes : (String.ofList first).toByteArray = (String.ofList second).toByteArray := by
    rw [String.toByteArray_ofList, String.toByteArray_ofList]
    exact congrArg List.toByteArray same
  rw [← String.toList_ofList (l := first), String.toByteArray_inj.mp bytes, String.toList_ofList]

/-- No character but NUL has a zero byte. -/
theorem ne_zero_of_mem_utf8EncodeChar {c : Char} (real : c ≠ '\x00') {byte : UInt8}
    (member : byte ∈ String.utf8EncodeChar c) : byte.toNat ≠ 0 := by
  have some : c.val.toNat ≠ 0 := by
    intro zero
    refine real (Char.ext (UInt32.toNat_inj.mp ?_))
    rw [zero]
    rfl
  unfold String.utf8EncodeChar at member
  dsimp only at member
  split at member
  · rw [List.mem_singleton.mp member, UInt8.toNat_ofNat']
    omega
  · split at member
    · simp only [List.mem_cons, List.not_mem_nil, or_false] at member
      rcases member with rfl | rfl <;> rw [UInt8.toNat_ofNat'] <;> omega
    · split at member
      · simp only [List.mem_cons, List.not_mem_nil, or_false] at member
        rcases member with rfl | rfl | rfl <;> rw [UInt8.toNat_ofNat'] <;> omega
      · simp only [List.mem_cons, List.not_mem_nil, or_false] at member
        rcases member with rfl | rfl | rfl | rfl <;> rw [UInt8.toNat_ofNat'] <;> omega

/-- **Up to eight bytes, none of them zero, are read back from a `long`.** -/
theorem lngram_injOn {first second : Bytes} (short : first.length ≤ 8) (short' : second.length ≤ 8)
    (nonzero : ∀ byte ∈ first, byte.toNat ≠ 0) (nonzero' : ∀ byte ∈ second, byte.toNat ≠ 0)
    (same : lngram first = lngram second) : first = second := by
  have digits : ∀ txt : Bytes, (∀ byte ∈ txt, byte.toNat ≠ 0) →
      Nat.digits 256 (Nat.ofDigits 256 (txt.map UInt8.toNat)) = txt.map UInt8.toNat := by
    intro txt nonzero
    refine Nat.digits_ofDigits 256 (by decide) _ (fun digit listed => ?_) fun some => ?_
    · obtain ⟨byte, -, rfl⟩ := List.mem_map.mp listed
      exact byte.toNat_lt
    · obtain ⟨byte, listed, last⟩ := List.mem_map.mp (List.getLast_mem some)
      rw [← last]
      exact nonzero byte listed
  have fits : ∀ txt : Bytes, txt.length ≤ 8 →
      Nat.ofDigits 256 (txt.map UInt8.toNat) < 2 ^ 64 := by
    intro txt short
    calc Nat.ofDigits 256 (txt.map UInt8.toNat)
        < 256 ^ (txt.map UInt8.toNat).length := by
          refine Nat.ofDigits_lt_base_pow_length (by decide) fun digit listed => ?_
          obtain ⟨byte, -, rfl⟩ := List.mem_map.mp listed
          exact byte.toNat_lt
      _ ≤ 256 ^ 8 := Nat.pow_le_pow_right (by decide) (by rwa [List.length_map])
      _ = 2 ^ 64 := by decide
  rw [lngram, lngram, BitVec.toInt_inj, List.take_of_length_le short, List.take_of_length_le short',
    ← BitVec.toNat_inj, BitVec.toNat_ofNat, BitVec.toNat_ofNat, Nat.mod_eq_of_lt (fits first short),
    Nat.mod_eq_of_lt (fits second short')] at same
  have bytes : first.map UInt8.toNat = second.map UInt8.toNat := by
    rw [← digits first nonzero, same, digits second nonzero']
  exact List.map_injective_iff.mpr (fun _ _ => UInt8.toNat_inj.mp) bytes

/-- The characters the code is written for: at most two bytes, and not NUL. -/
structure IsTwoByte (c : Char) : Prop where
  small : c.utf8Size ≤ 2
  real : c ≠ '\x00'

/-- The four-character strings in a text. -/
def grams (chars : List Char) : Set (List Char) :=
  {window | window.length = ngramNum ∧ window <:+: chars}

/-- **Four such characters are read back from a `long`.** -/
theorem packed_injOn {chars : List Char} (twoByte : ∀ c ∈ chars, IsTwoByte c)
    {chars' : List Char} (twoByte' : ∀ c ∈ chars', IsTwoByte c) {first second : List Char}
    (gram : first ∈ grams chars) (gram' : second ∈ grams chars')
    (same : packed first = packed second) : first = second := by
  have short : ∀ {chars window : List Char}, (∀ c ∈ chars, IsTwoByte c) → window ∈ grams chars →
      (encoded window).length ≤ 8 := by
    intro chars window twoByte gram
    have bound := List.sum_le_card_nsmul (window.map fun c => (String.utf8EncodeChar c).length) 2
      fun size listed => by
        obtain ⟨c, inside, rfl⟩ := List.mem_map.mp listed
        rw [String.length_utf8EncodeChar]
        exact (twoByte c (gram.2.subset inside)).small
    rw [List.length_map, gram.1] at bound
    rwa [encoded, List.length_flatMap]
  have nonzero : ∀ {chars window : List Char}, (∀ c ∈ chars, IsTwoByte c) → window ∈ grams chars →
      ∀ byte ∈ encoded window, byte.toNat ≠ 0 := by
    intro chars window twoByte gram byte member
    obtain ⟨c, listed, inside⟩ := List.mem_flatMap.mp member
    exact ne_zero_of_mem_utf8EncodeChar (twoByte c (gram.2.subset listed)).real inside
  exact encoded_injective (lngram_injOn (short twoByte gram) (short twoByte' gram')
    (nonzero twoByte gram) (nonzero twoByte' gram') same)

/-! ### `intersect` -/

/-- `intersect`. `none` if it writes behind the end of `tmp`. -/
def intersect (f s : List ℤ) : Option (List ℤ) :=
  if f.length = 0 ∨ s.length = 0 then some []
  else do
    let tmp := List.replicate (min f.length s.length) 0
    let (tmp, inter) ← setIntersection f s tmp 0
    return tmp.take inter

/-- It stays inside its buffer, whatever the vectors hold. -/
theorem intersect_within (f s : List ℤ) : ∃ inter, intersect f s = some inter := by
  dsimp only [intersect]
  split
  · exact ⟨[], rfl⟩
  · have room : 0 + min f.length s.length ≤
        (List.replicate (min f.length s.length) (0 : ℤ)).length := by
      rw [List.length_replicate, Nat.zero_add]
    obtain ⟨⟨tmp, inter⟩, written⟩ := setIntersection_within room
    rw [written]
    exact ⟨tmp.take inter, rfl⟩

/-- **`intersect` keeps the common n-grams**, and stays inside its buffer. -/
theorem intersect_eq {f s : List ℤ} (increasing : f.Pairwise (· < ·))
    (increasing' : s.Pairwise (· < ·)) : intersect f s = some (common f s) := by
  dsimp only [intersect]
  split
  · rename_i empty
    have nothing : common f s = [] := by
      rcases empty with empty | empty
      · rw [List.length_eq_zero_iff.mp empty]
        rfl
      · rw [List.length_eq_zero_iff.mp empty]
        exact List.filter_eq_nil_iff.mpr fun _ _ => by simp
    rw [nothing]
  · have room : 0 + min f.length s.length ≤
        (List.replicate (min f.length s.length) (0 : ℤ)).length := by
      rw [List.length_replicate, Nat.zero_add]
    obtain ⟨after, written, -, taken⟩ := setIntersection_eq increasing increasing' room
    rw [written]
    rw [List.take_zero, List.nil_append] at taken
    exact congrArg some taken

/-! ### What is counted -/

/-- A strictly increasing list that holds the packed strings of a set, and nothing else, is as long
as the set is large. -/
theorem length_eq_ncard {ngrams : List ℤ} {strings : Set (List Char)}
    (increasing : ngrams.Pairwise (· < ·)) (members : ∀ x, x ∈ ngrams ↔ x ∈ packed '' strings)
    (injective : Set.InjOn packed strings) : ngrams.length = strings.ncard := by
  have distinct : ngrams.Nodup := increasing.imp fun less => less.ne
  have image : packed '' strings = (ngrams.toFinset : Set ℤ) := by
    ext x
    rw [Finset.mem_coe, List.mem_toFinset, members]
  rw [← injective.ncard_image, image, Set.ncard_coe_finset, List.toFinset_card_of_nodup distinct]

/-- A text whose characters are such code points. -/
structure TwoByteText (characters : Bytes → List Bytes) (text : Bytes) (chars : List Char) :
    Prop where
  segments : characters text = chars.map String.utf8EncodeChar
  twoByte : ∀ c ∈ chars, IsTwoByte c

section Overlap

variable {characters : Bytes → List Bytes} {text : Bytes} {chars : List Char}

/-- The n-grams of such a text are its packed strings. -/
theorem TwoByteText.mem_generateNgrams (plain : TwoByteText characters text chars) (x : ℤ) :
    x ∈ generateNgrams characters text [] ↔ x ∈ packed '' grams chars := by
  rw [Wookie.mem_generateNgrams, plain.segments]
  constructor
  · rintro (old | ⟨window, size, within, rfl⟩)
    · cases old
    · obtain ⟨before, after, whole⟩ := within
      rw [List.append_assoc] at whole
      obtain ⟨front, rest, rfl, -, behind⟩ := List.map_eq_append_iff.mp whole.symm
      obtain ⟨inner, back, rfl, rfl, -⟩ := List.map_eq_append_iff.mp behind
      refine ⟨inner, ⟨by rwa [List.length_map] at size, front, back, ?_⟩, ?_⟩
      · rw [List.append_assoc]
      · rw [packed, encoded, List.flatMap_def]
  · rintro ⟨window, ⟨size, before, after, rfl⟩, rfl⟩
    refine .inr ⟨window.map String.utf8EncodeChar, by rwa [List.length_map], ?_, ?_⟩
    · rw [List.map_append, List.map_append]
      exact ⟨_, _, rfl⟩
    · rw [packed, encoded, List.flatMap_def]

/-- What is packed in two texts is a string of both. -/
theorem mem_packed_inter {strings : Set (List Char)} {chars' : List Char}
    (twoByte : ∀ c ∈ chars, IsTwoByte c) (twoByte' : ∀ c ∈ chars', IsTwoByte c)
    (within : strings ⊆ grams chars) (x : ℤ) :
    x ∈ packed '' strings ∧ x ∈ packed '' grams chars' ↔
      x ∈ packed '' (strings ∩ grams chars') := by
  constructor
  · rintro ⟨⟨first, member, rfl⟩, ⟨second, gram, same⟩⟩
    have equal := packed_injOn twoByte' twoByte gram (within member) same
    rw [equal] at gram
    exact ⟨first, ⟨member, gram⟩, rfl⟩
  · rintro ⟨window, ⟨member, gram⟩, rfl⟩
    exact ⟨⟨window, member, rfl⟩, ⟨window, gram, rfl⟩⟩

/-- **Intersections count common strings**: those of two texts, and again those of three. -/
theorem ngrams_overlap {t₁ t₂ t₃ : Bytes} {chars₁ chars₂ chars₃ : List Char}
    (plain₁ : TwoByteText characters t₁ chars₁) (plain₂ : TwoByteText characters t₂ chars₂)
    (plain₃ : TwoByteText characters t₃ chars₃) :
    (∀ text, (generateNgrams characters text []).Pairwise (· < ·)) ∧
    ∃ inter, intersect (generateNgrams characters t₁ []) (generateNgrams characters t₂ []) =
        some inter ∧
      inter.Pairwise (· < ·) ∧ inter.length = (grams chars₁ ∩ grams chars₂).ncard ∧
      ∃ inter', intersect inter (generateNgrams characters t₃ []) = some inter' ∧
        inter'.Pairwise (· < ·) ∧
        inter'.length = (grams chars₁ ∩ grams chars₂ ∩ grams chars₃).ncard := by
  have twice : (common (generateNgrams characters t₁ []) (generateNgrams characters t₂ [])).Pairwise
      (· < ·) := common_pairwise generateNgrams_pairwise
  have injective : Set.InjOn packed (grams chars₁ ∩ grams chars₂) := fun first gram second gram' =>
    packed_injOn plain₁.twoByte plain₁.twoByte gram.1 gram'.1
  have members : ∀ x, x ∈ common (generateNgrams characters t₁ [])
      (generateNgrams characters t₂ []) ↔ x ∈ packed '' (grams chars₁ ∩ grams chars₂) := by
    intro x
    rw [mem_common, plain₁.mem_generateNgrams, plain₂.mem_generateNgrams]
    exact mem_packed_inter plain₁.twoByte plain₂.twoByte subset_rfl x
  refine ⟨fun _ => generateNgrams_pairwise, _,
    intersect_eq generateNgrams_pairwise generateNgrams_pairwise, twice,
    length_eq_ncard twice members injective, _, intersect_eq twice generateNgrams_pairwise,
    common_pairwise twice, ?_⟩
  refine length_eq_ncard (common_pairwise twice) (fun x => ?_)
    (injective.mono Set.inter_subset_left)
  rw [mem_common, members, plain₃.mem_generateNgrams]
  exact mem_packed_inter plain₁.twoByte plain₃.twoByte Set.inter_subset_left x

/-- Texts of ASCII letters, a character a byte. -/
theorem ngrams_overlap_ascii :
    ∃ inter, intersect (generateNgrams (·.map ([·])) [97, 98, 99, 100, 101] [])
        (generateNgrams (·.map ([·])) [98, 99, 100, 101] []) = some inter ∧
      inter.length = (grams ['a', 'b', 'c', 'd', 'e'] ∩ grams ['b', 'c', 'd', 'e']).ncard := by
  have twoByte : ∀ c ∈ ['a', 'b', 'c', 'd', 'e'], IsTwoByte c := by
    intro c listed
    simp only [List.mem_cons, List.not_mem_nil, or_false] at listed
    rcases listed with rfl | rfl | rfl | rfl | rfl <;> exact ⟨by decide, by decide⟩
  have first : TwoByteText (·.map ([·])) [97, 98, 99, 100, 101] ['a', 'b', 'c', 'd', 'e'] :=
    ⟨by decide, twoByte⟩
  have second : TwoByteText (·.map ([·])) [98, 99, 100, 101] ['b', 'c', 'd', 'e'] :=
    ⟨by decide, fun c listed => twoByte c (List.mem_cons_of_mem _ listed)⟩
  obtain ⟨-, inter, found, -, length, -⟩ := ngrams_overlap first second second
  exact ⟨inter, found, length⟩

end Overlap

end Wookie
