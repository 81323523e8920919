/-
**`wookie::split`: the words of a text and their positions.**

`split::feed` walks over the word segments boost finds, lower-cases each, and collects the map from
a token to its positions and the list of tokens in the order they first occur. Segmentation and
lower-casing are boost's and are kept as the parameter `Locale`.

* `mem_feed_positions` — the map holds position `n` under a token exactly if the token is word `n`.
* `feed_tokens` — the token list is the word sequence without its repetitions: a token that occurs
  again is not pushed again.
-/

import Mathlib.Data.List.Basic
import Std.Data.TreeMap.Lemmas
import Wookie.Record

namespace Wookie

/-- `std::locale` as `split` uses it. -/
structure Locale where
  /-- `ssegment_index` with the rule `word_any`: the word segments of a text. -/
  segment : Str → List Str
  /-- `boost::locale::to_lower`. -/
  toLower : Str → Str
  /-- An empty text has no segments. -/
  segment_nil : segment [] = []

/-- The lower-cased word sequence of a text. -/
def Locale.words (loc : Locale) (text : Str) : List Str := (loc.segment text).map loc.toLower

theorem Locale.words_nil (loc : Locale) : loc.words [] = [] := by
  rw [Locale.words, loc.segment_nil, List.map_nil]

namespace Split

/-- `mpos_t`. -/
abbrev Mpos := Std.TreeMap Str (List Int)

/-- The variables of the loop in `split::feed`. `pos` is an `int` in the source: the text is one of
fewer than `2 ^ 31` words. -/
structure Loop where
  mpos : Mpos
  tokens : List Str
  pos : Int

/-- The body of the loop. -/
def Loop.body (loop : Loop) (token : Str) : Loop :=
  match loop.mpos[token]? with
  | some positions =>
    { loop with mpos := loop.mpos.insert token (positions ++ [loop.pos]), pos := loop.pos + 1 }
  | none =>
    { mpos := loop.mpos.insert token [loop.pos]
      tokens := loop.tokens ++ [token]
      pos := loop.pos + 1 }

/-- `split::feed`: the position map, and `tokens` with the new tokens pushed. -/
def feed (loc : Locale) (text : Str) (tokens : List Str) : Mpos × List Str :=
  let loop := (loc.segment text).foldl (fun loop str => Loop.body loop (loc.toLower str))
    ⟨∅, tokens, 0⟩
  (loop.mpos, loop.tokens)

/-! ### What the loop has read -/

/-- The loop started with `tokens` and has read `words`. -/
structure Loop.Read (tokens words : List Str) (loop : Loop) : Prop where
  pos : loop.pos = words.length
  mem : ∀ token, token ∈ loop.mpos ↔ token ∈ words
  at_iff : ∀ token positions, loop.mpos[token]? = some positions →
    ∀ p : Int, p ∈ positions ↔ ∃ n : Nat, p = n ∧ words[n]? = some token
  tokens : loop.tokens = tokens ++ words.eraseDups

variable {tokens words : List Str} {loop : Loop}

theorem Loop.Read.start (tokens : List Str) : Loop.Read tokens [] ⟨∅, tokens, 0⟩ where
  pos := rfl
  mem token := by simp
  at_iff token positions found := by simp at found
  tokens := by simp

/-- Where a token stands in the words with one more word at the end. -/
theorem getElem?_concat_iff {n : Nat} {word token : Str} :
    (words ++ [word])[n]? = some token ↔
      words[n]? = some token ∨ n = words.length ∧ word = token := by
  rcases Nat.lt_trichotomy n words.length with below | same | above
  · rw [List.getElem?_append_left below]
    constructor
    · exact .inl
    · rintro (found | ⟨same, -⟩)
      · exact found
      · omega
  · subst same
    simp
  · have outside : words[n]? = none := List.getElem?_eq_none (by omega)
    rw [List.getElem?_eq_none (by simp; omega), outside]
    constructor
    · intro found
      cases found
    · rintro (found | ⟨same, -⟩)
      · cases found
      · omega

/-- The positions of a token the map does not hold yet. -/
theorem Loop.Read.not_at (read : loop.Read tokens words) {token : Str}
    (missing : loop.mpos[token]? = none) (n : Nat) : words[n]? ≠ some token := by
  intro found
  have member : token ∈ loop.mpos := (read.mem token).mpr (List.mem_of_getElem? found)
  rw [Std.TreeMap.mem_iff_isSome_getElem?, missing] at member
  cases member

/-- The positions put under the token just read are its own, and no other token moves. -/
theorem Loop.Read.insert (read : loop.Read tokens words) {token : Str} {positions : List Int}
    {pushed : List Str}
    (own : ∀ p : Int, p ∈ positions ↔ ∃ n : Nat, p = n ∧ (words ++ [token])[n]? = some token)
    (unique : pushed = tokens ++ (words ++ [token]).eraseDups) :
    Loop.Read tokens (words ++ [token])
      ⟨loop.mpos.insert token positions, pushed, loop.pos + 1⟩ where
  pos := by
    rw [read.pos, List.length_append, List.length_singleton]
    rfl
  mem other := by
    rw [Std.TreeMap.mem_insert, read.mem, Std.compare_eq_iff_eq, List.mem_append,
      List.mem_singleton, or_comm, eq_comm]
  at_iff other held found p := by
    rw [Std.TreeMap.getElem?_insert] at found
    split at found
    · rename_i same
      cases Std.compare_eq_iff_eq.mp same
      cases found
      exact own p
    · rename_i differs
      have differs : token ≠ other := fun same => differs (Std.compare_eq_iff_eq.mpr same)
      simp only [read.at_iff _ _ found, getElem?_concat_iff, differs, and_false, or_false]
  tokens := unique

/-- **One step of the loop reads one word.** -/
theorem Loop.Read.body (read : loop.Read tokens words) (token : Str) :
    (loop.body token).Read tokens (words ++ [token]) := by
  unfold Loop.body
  split
  · rename_i old found
    have member : token ∈ words := by
      rw [← read.mem, Std.TreeMap.mem_iff_isSome_getElem?, found]
      rfl
    refine read.insert (fun p => ?_) ?_
    · simp only [List.mem_append, List.mem_singleton, read.at_iff _ _ found, read.pos,
        getElem?_concat_iff]
      grind
    · have known : [token].removeAll words = [] := by simp [List.removeAll, member]
      rw [List.eraseDups_append, known, read.tokens]
      simp
  · rename_i missing
    have fresh : token ∉ words := by
      rw [← read.mem, Std.TreeMap.mem_iff_isSome_getElem?, missing]
      exact Bool.false_ne_true
    refine read.insert (fun p => ?_) ?_
    · have nowhere := read.not_at missing
      simp only [List.mem_singleton, read.pos, getElem?_concat_iff]
      grind
    · have new : [token].removeAll words = [token] := by simp [List.removeAll, fresh]
      rw [List.eraseDups_append, new, read.tokens, List.append_assoc]
      rfl

theorem Loop.Read.foldl (loc : Locale) (segments : List Str) :
    ∀ {words : List Str} {loop : Loop}, loop.Read tokens words →
      (segments.foldl (fun loop str => Loop.body loop (loc.toLower str)) loop).Read tokens
        (words ++ segments.map loc.toLower) := by
  induction segments with
  | nil =>
    intro words loop read
    simpa using read
  | cons segment rest ih =>
    intro words loop read
    have next := ih (read.body (loc.toLower segment))
    rwa [List.append_assoc, List.singleton_append] at next

/-- **`feed` reads all the words.** -/
theorem feed_read (loc : Locale) (text : Str) (tokens : List Str) :
    ∃ loop : Loop, loop.Read tokens (loc.words text) ∧
      feed loc text tokens = (loop.mpos, loop.tokens) :=
  ⟨_, Loop.Read.foldl loc (loc.segment text) (Loop.Read.start tokens), rfl⟩

variable (loc : Locale) (text : Str)

/-- The map holds exactly the words of the text. -/
theorem mem_feed (tokens : List Str) (token : Str) :
    token ∈ (feed loc text tokens).1 ↔ token ∈ loc.words text := by
  obtain ⟨loop, read, same⟩ := feed_read loc text tokens
  rw [same]
  exact read.mem token

/-- **The positions of a token are the places where it is the word.** -/
theorem mem_feed_positions {token : Str} {positions : List Int}
    (found : (feed loc text tokens).1[token]? = some positions) (p : Int) :
    p ∈ positions ↔ ∃ n : Nat, p = n ∧ (loc.words text)[n]? = some token := by
  obtain ⟨loop, read, same⟩ := feed_read loc text tokens
  rw [same] at found
  exact read.at_iff token positions found p

/-- **The tokens are the words, each once, where it first occurs.** -/
theorem feed_tokens : (feed loc text tokens).2 = tokens ++ (loc.words text).eraseDups := by
  obtain ⟨loop, read, same⟩ := feed_read loc text tokens
  rw [same]
  exact read.tokens

/-- The positions collected so far rise, and are below the next one. -/
def Loop.Rising (loop : Loop) : Prop :=
  ∀ (token : Str) (positions : List Int), loop.mpos[token]? = some positions →
    positions.Pairwise (· < ·) ∧ ∀ p ∈ positions, p < loop.pos

/-- A position put behind those of its token keeps them rising. -/
theorem Loop.Rising.insert (rising : loop.Rising) {token : Str} {positions : List Int}
    {pushed : List Str} (own : positions.Pairwise (· < ·)) (bound : ∀ p ∈ positions, p ≤ loop.pos) :
    Loop.Rising ⟨loop.mpos.insert token positions, pushed, loop.pos + 1⟩ := by
  intro other held found
  rw [Std.TreeMap.getElem?_insert] at found
  split at found
  · cases found
    exact ⟨own, fun p member => Int.lt_add_one_of_le (bound p member)⟩
  · obtain ⟨pairwise, below⟩ := rising other held found
    exact ⟨pairwise, fun p member => Int.lt_add_one_of_le (Int.le_of_lt (below p member))⟩

theorem Loop.Rising.body (rising : loop.Rising) (token : Str) : (loop.body token).Rising := by
  unfold Loop.body
  split
  · rename_i old found
    obtain ⟨pairwise, below⟩ := rising token old found
    refine rising.insert ?_ fun p member => ?_
    · refine List.pairwise_append.mpr ⟨pairwise, List.pairwise_singleton _ _, ?_⟩
      intro p member q last
      rw [List.mem_singleton.mp last]
      exact below p member
    · rcases List.mem_append.mp member with earlier | last
      · exact Int.le_of_lt (below p earlier)
      · exact Int.le_of_eq (List.mem_singleton.mp last)
  · exact rising.insert (List.pairwise_singleton _ _) fun p member =>
      Int.le_of_eq (List.mem_singleton.mp member)

/-- **The positions of a token rise.** -/
theorem feed_rising {token : Str} {positions : List Int}
    (found : (feed loc text tokens).1[token]? = some positions) : positions.Pairwise (· < ·) := by
  have fold : ∀ (segments : List Str) {loop : Loop}, loop.Rising →
      (segments.foldl (fun loop str => Loop.body loop (loc.toLower str)) loop).Rising := by
    intro segments
    induction segments with
    | nil => exact fun rising => rising
    | cons segment rest ih => exact fun rising => ih (rising.body _)
  have start : Loop.Rising ⟨∅, tokens, 0⟩ := fun token positions found => by simp at found
  exact (fold (loc.segment text) start token positions found).1

end Split

/-- ASCII text, one word a run of letters and digits. -/
def Locale.ascii : Locale where
  segment text := (text.splitOnP fun ch => !ch.isAlphanum).filter (· ≠ [])
  toLower := List.map Char.toLower
  segment_nil := rfl

/-- A word of `Locale.ascii`: lower-case letters and digits. -/
def IsAsciiWord (word : Str) : Prop :=
  word ≠ [] ∧ word.all Char.isAlphanum = true ∧ word.map Char.toLower = word

instance (word : Str) : Decidable (IsAsciiWord word) := inferInstanceAs (Decidable (_ ∧ _ ∧ _))

/-- Words are read one after the other. -/
theorem ascii_words_cons {word : Str} (plain : IsAsciiWord word) (rest : Str) :
    Locale.ascii.words (word ++ ' ' :: rest) = word :: Locale.ascii.words rest := by
  obtain ⟨some, letters, lower⟩ := plain
  have segments : Locale.ascii.segment (word ++ ' ' :: rest) =
      word :: Locale.ascii.segment rest := by
    show ((word ++ ' ' :: rest).splitOnP fun ch => !ch.isAlphanum).filter (· ≠ []) = _
    rw [List.splitOnP_append_cons_of_forall_mem (by simpa using letters) ' ' rfl,
      List.filter_cons_of_pos (by simpa using some)]
    rfl
  rw [Locale.words, segments, List.map_cons]
  exact congrArg (· :: _) lower

/-- **Any sequence of words is that of a text.** -/
theorem exists_ascii_words {words : List Str} (plain : ∀ word ∈ words, IsAsciiWord word) :
    ∃ text, Locale.ascii.words text = words := by
  induction words with
  | nil => exact ⟨[], Locale.ascii.words_nil⟩
  | cons word rest ih =>
    obtain ⟨text, read⟩ := ih fun word member => plain word (List.mem_cons_of_mem _ member)
    exact ⟨word ++ ' ' :: text, by rw [ascii_words_cons (plain word List.mem_cons_self), read]⟩

end Wookie
