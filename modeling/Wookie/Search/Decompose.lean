/-
**What `prepare` makes of a query with any number of quote chars.**

`operators_found` notes the offsets of the quoted strings in the whole text, and `prepare` cuts each
out of a text from which the earlier ones are gone already. `QuotedText.cut` is the decomposition by
itself: the text cut at the 1st and 2nd, the 3rd and 4th, … quote char.

* `operatorsFound_layout` — the automaton finds the pairs of quote chars of any text.
* `cutQuotes_iff` — one by one, the strings are cut out right as long as nothing was cut before, or
  nothing is to be cut: the first char of a string that is missed stays where the closing quote char
  belongs.
* `prepare_exact_iff` — **`prepare` decomposes a text exactly if at most one quoted string has
  chars, and as many chars are left from the closing quote char of each later one on.**
-/

import Wookie.Search.Query

namespace Wookie.FindResult

/-! ### The quoted strings of a text -/

/-- Quoted strings, each with what stands before it, and what stands behind the last one. -/
def textOf (tail : Str) : List (Str × Str) → Str
  | [] => tail
  | (before, inside) :: rest => before ++ '\"' :: (inside ++ '\"' :: textOf tail rest)

/-- The same without the chars inside the quotes. -/
def unquotedOf (tail : Str) : List (Str × Str) → Str
  | [] => tail
  | (before, _) :: rest => before ++ '\"' :: '\"' :: unquotedOf tail rest

/-- A text cut at its pairs of quote chars. One quote char may be left over behind the last pair. -/
structure QuotedText where
  parts : List (Str × Str)
  tail : Str
  plain : ∀ part ∈ parts, '\"' ∉ part.1 ∧ '\"' ∉ part.2
  few : tail.count '\"' ≤ 1

namespace QuotedText

def text (whole : QuotedText) : Str := textOf whole.tail whole.parts

/-- The contents of the pairs of quote chars. -/
def quoted (whole : QuotedText) : List Str := whole.parts.map Prod.snd

/-- The text without them. -/
def unquoted (whole : QuotedText) : Str := unquotedOf whole.tail whole.parts

/-- What `prepare` should return. -/
def request (whole : QuotedText) : FindRequest :=
  ⟨whole.quoted.map .new, whole.unquoted, []⟩

end QuotedText

/-- The pieces between the quote chars, every second one quoted if a piece follows it. -/
def pairUp : List Str → List (Str × Str) × Str
  | before :: inside :: next :: rest =>
    ((before, inside) :: (pairUp (next :: rest)).1, (pairUp (next :: rest)).2)
  | [before, rest] => ([], before ++ '\"' :: rest)
  | [last] => ([], last)
  | [] => ([], [])

theorem not_mem_of_mem_splitOn {text piece : Str} (cut : piece ∈ text.splitOn '\"') :
    '\"' ∉ piece := by
  induction text generalizing piece with
  | nil =>
    rw [List.splitOn_nil, List.mem_singleton] at cut
    subst cut
    exact List.not_mem_nil
  | cons ch rest ih =>
    rw [List.splitOn_cons_eq_if_modifyHead] at cut
    split at cut
    · rcases List.mem_cons.mp cut with rfl | later
      · exact List.not_mem_nil
      · exact ih later
    · rename_i plain
      obtain ⟨first, more, pieces⟩ := List.exists_cons_of_ne_nil (List.splitOn_ne_nil '\"' rest)
      rw [pieces, List.modifyHead_cons] at cut
      rcases List.mem_cons.mp cut with rfl | later
      · have inner := ih (pieces ▸ List.mem_cons_self)
        simpa [inner] using fun same => plain (beq_iff_eq.mpr same.symm)
      · exact ih (pieces ▸ List.mem_cons_of_mem _ later)

theorem pairUp_spec (pieces : List Str) (plain : ∀ piece ∈ pieces, '\"' ∉ piece) :
    (∀ part ∈ (pairUp pieces).1, '\"' ∉ part.1 ∧ '\"' ∉ part.2) ∧
      (pairUp pieces).2.count '\"' ≤ 1 ∧
      textOf (pairUp pieces).2 (pairUp pieces).1 = ['\"'].intercalate pieces := by
  induction pieces using pairUp.induct with
  | case1 before inside next rest ih =>
    obtain ⟨inner, few, whole⟩ := ih fun piece member =>
      plain piece (List.mem_cons_of_mem _ (List.mem_cons_of_mem _ member))
    refine ⟨?_, few, ?_⟩
    · simp only [pairUp, List.forall_mem_cons]
      exact ⟨⟨plain before (by simp), plain inside (by simp)⟩, inner⟩
    · simp only [pairUp, textOf, whole]
      simp [List.intercalate]
  | case2 before rest =>
    have first := List.count_eq_zero.mpr (plain before (by simp))
    have second := List.count_eq_zero.mpr (plain rest (by simp))
    refine ⟨by simp [pairUp], ?_, by simp [pairUp, textOf, List.intercalate]⟩
    simp [pairUp, List.count_append, first, second]
  | case3 last =>
    have none := List.count_eq_zero.mpr (plain last (by simp))
    refine ⟨by simp [pairUp], ?_, by simp [pairUp, textOf, List.intercalate]⟩
    simp [pairUp, none]
  | case4 => exact ⟨by simp [pairUp], by simp [pairUp], rfl⟩

/-- **The text cut at the 1st and 2nd, the 3rd and 4th, … quote char.** -/
def QuotedText.cut (text : Str) : QuotedText where
  parts := (pairUp (text.splitOn '\"')).1
  tail := (pairUp (text.splitOn '\"')).2
  plain := (pairUp_spec _ fun _ => not_mem_of_mem_splitOn).1
  few := (pairUp_spec _ fun _ => not_mem_of_mem_splitOn).2.1

/-- **Nothing of the text is lost in the cut.** -/
theorem QuotedText.text_cut (text : Str) : (QuotedText.cut text).text = text := by
  have whole := (pairUp_spec (text.splitOn '\"') fun _ => not_mem_of_mem_splitOn).2.2
  rw [List.intercalate_splitOn] at whole
  exact whole

theorem count_textOf {tail : Str} (parts : List (Str × Str)) :
    (∀ part ∈ parts, '\"' ∉ part.1 ∧ '\"' ∉ part.2) →
      (textOf tail parts).count '\"' = 2 * parts.length + tail.count '\"' := by
  induction parts with
  | nil => simp [textOf]
  | cons part rest ih =>
    intro plain
    obtain ⟨unquoted, inner⟩ := plain part List.mem_cons_self
    have before := List.count_eq_zero.mpr unquoted
    have inside := List.count_eq_zero.mpr inner
    have later := ih fun part member => plain part (List.mem_cons_of_mem _ member)
    simp only [textOf, List.count_append, List.count_cons_self, before, inside, later,
      List.length_cons]
    omega

/-- **Every two quote chars make a pair.** -/
theorem QuotedText.length_parts (whole : QuotedText) :
    whole.parts.length = whole.text.count '\"' / 2 := by
  have few := whole.few
  rw [QuotedText.text, count_textOf whole.parts whole.plain]
  omega

/-! ### The offsets -/

/-- Where the quoted strings stand, the first part at `pos`. -/
def spansFrom (pos : Nat) : List (Str × Str) → List (Nat × Nat)
  | [] => []
  | (before, inside) :: rest =>
    (pos + before.length + 1, pos + before.length + 1 + inside.length) ::
      spansFrom (pos + before.length + inside.length + 2) rest

/-- The automaton over the parts of a text, from outside of quotes. -/
theorem foldl_layout {tail : Str} (few : tail.count '\"' ≤ 1) (parts : List (Str × Str)) :
    (∀ part ∈ parts, '\"' ∉ part.1 ∧ '\"' ∉ part.2) → ∀ {scope : OperatorsFound},
      scope.q1 = none → ((textOf tail parts).foldl OperatorsFound.apply scope).quotes =
        scope.quotes ++ spansFrom scope.pos parts := by
  induction parts with
  | nil =>
    intro _ scope outside
    rw [textOf, foldl_single few outside, spansFrom, List.append_nil]
  | cons part rest ih =>
    intro plain scope outside
    obtain ⟨before, inside⟩ := part
    obtain ⟨unquoted, inner⟩ := plain _ List.mem_cons_self
    obtain ⟨first, readBefore⟩ := foldl_unquoted unquoted scope
    obtain ⟨second, readInside⟩ := foldl_unquoted inner (OperatorsFound.apply
      { scope with pos := scope.pos + before.length, negative := first } '\"')
    rw [textOf, List.foldl_append, readBefore, List.foldl_cons, List.foldl_append, readInside,
      List.foldl_cons, ih fun part member => plain part (List.mem_cons_of_mem _ member)]
    · simp only [OperatorsFound.apply, outside, if_true, spansFrom, List.append_assoc,
        List.singleton_append]
      congr 3
      omega
    · simp [OperatorsFound.apply, outside]

/-- **The automaton finds the pairs of quote chars.** -/
theorem operatorsFound_layout (whole : QuotedText) :
    (operatorsFound whole.text).quotes = spansFrom 0 whole.parts :=
  foldl_layout whole.few whole.parts whole.plain rfl

/-! ### The cuts -/

/-- `n` chars were cut before: every later quoted string is empty, and at least `n` chars are left
from its closing quote char on. -/
def EmptyBehind (n : Nat) (tail : Str) : List (Str × Str) → Prop
  | [] => True
  | (_, inside) :: rest =>
    inside = [] ∧ n ≤ (textOf tail rest).length + 1 ∧ EmptyBehind n tail rest

/-- At most one quoted string has chars, and as many chars are left from the closing quote char of
each later one on. -/
def Fits (tail : Str) : List (Str × Str) → Prop
  | [] => True
  | (_, inside) :: rest =>
    if inside = [] then Fits tail rest else EmptyBehind inside.length tail rest

theorem substr_append (before inside after : Str) :
    substr (before ++ (inside ++ after)) before.length inside.length = .ok inside := by
  rw [substr, if_neg (by simp)]
  simp

theorem replace_append (before inside after : Str) :
    replace (before ++ (inside ++ after)) before.length inside.length [] =
      .ok (before ++ after) := by
  rw [replace, if_neg (by simp), ← List.drop_drop, List.drop_left, List.take_left, List.drop_left,
    List.append_nil]

/-- **A cut leaves alone what stands before it.** -/
theorem cuts_keep {text : Str} {k : Nat} (spans : List (Nat × Nat)) :
    (∀ span ∈ spans, k < span.1) → ∀ {start result : FindRequest}, k < start.text.length →
      spans.foldlM (cutQuote text) start = .ok result → result.text[k]? = start.text[k]? := by
  induction spans with
  | nil =>
    intro _ start result _ same
    cases same
    rfl
  | cons span rest ih =>
    intro behind start result bound cut
    rw [List.foldlM_cons] at cut
    cases first : cutQuote text start span with
    | error thrown =>
      rw [first] at cut
      cases cut
    | ok middle =>
      rw [first] at cut
      have before := behind span List.mem_cons_self
      have kept : k < middle.text.length ∧ middle.text[k]? = start.text[k]? := by
        unfold cutQuote substr replace at first
        split at first
        · cases first
        · split at first
          · cases first
          · rename_i inside
            cases first
            have taken : k < (start.text.take span.1).length := by
              rw [List.length_take]
              omega
            simp only [List.append_nil, List.length_append]
            refine ⟨by omega, ?_⟩
            rw [List.getElem?_append_left taken, List.getElem?_take_of_lt before]
      rw [ih (fun span member => behind span (List.mem_cons_of_mem _ member)) kept.1 cut, kept.2]

theorem le_of_mem_spansFrom {parts : List (Str × Str)} {pos : Nat} {span : Nat × Nat}
    (member : span ∈ spansFrom pos parts) : pos < span.1 := by
  induction parts generalizing pos with
  | nil => cases member
  | cons part rest ih =>
    rcases List.mem_cons.mp member with rfl | later
    · exact Nat.lt_succ_of_le (Nat.le_add_right _ _)
    · have behind := ih later
      omega

/-- The offset of a quoted string is within the text, whatever is left of the text by then. -/
theorem cutQuote_part (passed before inside after : Str) (res : FindRequest) :
    cutQuote (passed ++ (before ++ '\"' :: (inside ++ after))) res
        (passed.length + before.length + 1, passed.length + before.length + 1 + inside.length) =
      (replace res.text (passed.length + before.length + 1) inside.length []).map fun text =>
        { res with quotes := res.quotes ++ [.new inside], text } := by
  have read : substr (passed ++ (before ++ '\"' :: (inside ++ after)))
      (passed.length + before.length + 1) inside.length = .ok inside := by
    have found := substr_append (passed ++ before ++ ['\"']) inside after
    simp only [List.length_append, List.length_singleton, List.append_assoc,
      List.singleton_append] at found
    rwa [← Nat.add_assoc] at found
  rw [cutQuote]
  simp only [Nat.add_sub_cancel_left, read, bind, Except.bind, pure, Except.pure, Except.map]

/-- Nothing was cut before: the string is cut out where it stands. -/
theorem replace_first (kept before inside after : Str) :
    replace (kept ++ (before ++ '\"' :: (inside ++ after))) (kept.length + before.length + 1)
      inside.length [] = .ok (kept ++ before ++ ['\"'] ++ after) := by
  have cut := replace_append (kept ++ before ++ ['\"']) inside after
  simp only [List.length_append, List.length_singleton] at cut
  rw [← cut]
  simp

/-- Nothing is to be cut: the text stays, if it reaches to the offset. -/
theorem replace_empty (text : Str) (pos : Nat) :
    replace text pos 0 [] = if text.length < pos then .error .outOfRange else .ok text := by
  rw [replace, Nat.add_zero, List.append_nil, List.take_append_drop]

/-- **A string that is missed stays**: its first char stands where the closing quote char belongs.
-/
theorem cutQuotes_missed {text tail passed kept before inside : Str} {rest : List (Str × Str)}
    {n : Nat} {quotes quotes' : List Quote} {tokens tokens' : List Str} (cut : n ≠ 0)
    (some : inside ≠ []) (inner : '\"' ∉ inside) (sizes : passed.length = kept.length + n) :
    (spansFrom passed.length ((before, inside) :: rest)).foldlM (cutQuote text)
        ⟨quotes, kept ++ textOf tail ((before, inside) :: rest), tokens⟩ ≠
      .ok ⟨quotes', kept ++ unquotedOf tail ((before, inside) :: rest), tokens'⟩ := by
  intro done
  obtain ⟨ch, more, rfl⟩ := List.exists_cons_of_ne_nil some
  have behind : ∀ span ∈ spansFrom passed.length ((before, ch :: more) :: rest),
      kept.length + (before.length + 1) < span.1 := by
    intro span member
    rcases List.mem_cons.mp member with rfl | later
    · show kept.length + (before.length + 1) < passed.length + before.length + 1
      omega
    · have bound := le_of_mem_spansFrom later
      omega
  have stays := cuts_keep _ behind (by simp [textOf]) done
  simp only [textOf, unquotedOf] at stays
  rw [List.getElem?_append_right (Nat.le_add_right _ _),
    List.getElem?_append_right (Nat.le_add_right _ _), Nat.add_sub_cancel_left,
    List.getElem?_append_right (Nat.le_succ _), List.getElem?_append_right (Nat.le_succ _),
    Nat.succ_sub (Nat.le_refl _), Nat.sub_self] at stays
  have same : '\"' = ch := Option.some.inj stays
  exact inner (same ▸ List.mem_cons_self)

/-- **The cuts from a part on**, `n` chars having been cut before. The whole text has `passed` in
front of the parts, and what is left of it is `kept`. -/
theorem cutQuotes_iff (tail : Str) (parts : List (Str × Str)) :
    (∀ part ∈ parts, '\"' ∉ part.1 ∧ '\"' ∉ part.2) →
      ∀ (passed kept : Str) (n : Nat) (quotes : List Quote) (tokens : List Str),
        passed.length = kept.length + n →
        ((spansFrom passed.length parts).foldlM (cutQuote (passed ++ textOf tail parts))
            ⟨quotes, kept ++ textOf tail parts, tokens⟩ =
          .ok ⟨quotes ++ (parts.map Prod.snd).map .new, kept ++ unquotedOf tail parts, tokens⟩ ↔
        if n = 0 then Fits tail parts else EmptyBehind n tail parts) := by
  induction parts with
  | nil =>
    intro _ passed kept n quotes tokens _
    simp [spansFrom, textOf, unquotedOf, Fits, EmptyBehind, pure, Except.pure]
  | cons part rest ih =>
    intro plain passed kept n quotes tokens sizes
    obtain ⟨before, inside⟩ := part
    obtain ⟨-, inner⟩ := plain _ List.mem_cons_self
    -- the rest of the parts, once this one is cut out
    have later : ∀ (n : Nat) (quotes : List Quote),
        passed.length + inside.length = kept.length + n →
        ((spansFrom (passed.length + before.length + inside.length + 2) rest).foldlM
            (cutQuote (passed ++ (before ++ '\"' :: (inside ++ '\"' :: textOf tail rest))))
            ⟨quotes, kept ++ (before ++ '\"' :: '\"' :: textOf tail rest), tokens⟩ =
          .ok ⟨quotes ++ (rest.map Prod.snd).map .new,
            kept ++ (before ++ '\"' :: '\"' :: unquotedOf tail rest), tokens⟩ ↔
        if n = 0 then Fits tail rest else EmptyBehind n tail rest) := by
      intro n quotes same
      have size : (passed ++ (before ++ '\"' :: (inside ++ ['\"']))).length =
          passed.length + before.length + inside.length + 2 := by
        simp only [List.length_append, List.length_cons, List.length_nil]
        omega
      have step := ih (fun part member => plain part (List.mem_cons_of_mem _ member))
        (passed ++ (before ++ '\"' :: (inside ++ ['\"'])))
        (kept ++ (before ++ ['\"', '\"'])) n quotes
        tokens (by
          rw [size, List.length_append, List.length_append]
          simp only [List.length_cons, List.length_nil]
          omega)
      rw [size] at step
      simpa only [List.append_assoc, List.cons_append, List.nil_append] using step
    have quoted : quotes ++ (((before, inside) :: rest).map Prod.snd).map .new =
        (quotes ++ [.new inside]) ++ (rest.map Prod.snd).map .new := by
      simp only [List.map_cons, List.append_assoc, List.singleton_append]
    by_cases first : n = 0
    · subst first
      have cut := replace_first kept before inside ('\"' :: textOf tail rest)
      rw [← Nat.add_zero kept.length, ← sizes] at cut
      have closed : kept ++ before ++ ['\"'] ++ '\"' :: textOf tail rest =
          kept ++ (before ++ '\"' :: '\"' :: textOf tail rest) := by
        simp only [List.append_assoc, List.singleton_append]
      rw [spansFrom, List.foldlM_cons, textOf, cutQuote_part, quoted]
      simp only [cut, closed, Except.map, bind, Except.bind]
      refine (later inside.length _ (by omega)).trans ?_
      rw [if_pos trivial, Fits]
      simp only [List.length_eq_zero_iff]
    · rw [if_neg first, EmptyBehind]
      by_cases empty : inside = []
      · subst empty
        have long : (kept ++ (before ++ '\"' :: ([] ++ '\"' :: textOf tail rest))).length <
            passed.length + before.length + 1 ↔ ¬ n ≤ (textOf tail rest).length + 1 := by
          simp only [List.length_append, List.length_cons, List.nil_append]
          omega
        rw [spansFrom, List.foldlM_cons, textOf, cutQuote_part, quoted]
        simp only [List.length_nil, replace_empty, long, true_and]
        by_cases left : n ≤ (textOf tail rest).length + 1
        · rw [if_neg (not_not.mpr left), and_iff_right left]
          refine (later n _ sizes).trans ?_
          rw [if_neg first]
        · rw [if_pos left]
          exact iff_of_false (fun same => by cases same) fun fits => left fits.1
      · exact iff_of_false (cutQuotes_missed first empty inner sizes) fun fits => empty fits.1

theorem prepare_quotedText_iff (whole : QuotedText) :
    prepare whole.text = .ok whole.request ↔ Fits whole.tail whole.parts := by
  have cuts := cutQuotes_iff whole.tail whole.parts whole.plain [] [] 0 [] [] rfl
  rw [if_pos rfl] at cuts
  rw [← cuts, prepare, operatorsFound_layout]
  rfl

/-- **`prepare` decomposes a text exactly where it fits**: at most one quoted string has chars, and
as many chars are left from the closing quote char of each later one on. -/
theorem prepare_exact_iff (text : Str) :
    ((QuotedText.cut text).text = text ∧
      (QuotedText.cut text).parts.length = text.count '\"' / 2) ∧
      (prepare text = .ok (QuotedText.cut text).request ↔
        Fits (QuotedText.cut text).tail (QuotedText.cut text).parts) := by
  have pairs := (QuotedText.cut text).length_parts
  have exactly := prepare_quotedText_iff (QuotedText.cut text)
  rw [QuotedText.text_cut] at pairs exactly
  exact ⟨⟨QuotedText.text_cut text, pairs⟩, exactly⟩

/-- The query `"a" "b"`. -/
def twoPhrases : Str := "\"a\" \"b\"".toList

/-- **The second phrase is cut out one char too late**: its closing quote char goes, its `b` stays.
-/
theorem prepare_twoPhrases :
    prepare twoPhrases =
        .ok ⟨[.new ['a'], .new ['b']], "\"\" \"b".toList, []⟩ ∧
      prepare twoPhrases ≠ .ok (QuotedText.cut twoPhrases).request := by
  decide +kernel

end Wookie.FindResult
