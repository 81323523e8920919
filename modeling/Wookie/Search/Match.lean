/-
**Matching a quote against the positions of a document.**

`on_result_ready` walks over the merged position map of a document, in the order of the positions,
with the number of tokens matched so far and the position of the last one. A token out of place
resets the walk; a token other than the one due may start the quote anew.

* `At entries start indexes` — the indexes stand one behind the other from position `start` on.
* `scan_iff` — what a walk in the middle of a quote finds: the rest of the quote right ahead, or a
  whole quote further on.
* `matchQuote_iff` — **the walk finds a quote of distinct tokens exactly if it stands somewhere.**
-/

import Wookie.Search.Query

namespace Wookie.FindResult

/-- The body of the loop over the positions, up to the test for the end: the new `state` and
`prev_pos`. -/
def advance (quote : Quote) (state : Nat) (prevPos p : Int) (index : RawId) : Nat × Int :=
  if state < quote.tokens.length then
    if quote.indexes[state]? = some index then
      if prevPos = -1 then (state + 1, p)
      else if p = prevPos + 1 then (state + 1, prevPos + 1)
      else (0, -1)
    else
      -- check again the first index in quote
      if quote.indexes[0]? = some index then (1, p) else (0, -1)
  else (state, prevPos)

/-- The loop over the positions: `quote_ok`. -/
def scan (quote : Quote) (state : Nat) (prevPos : Int) : List (Int × RawId) → Bool
  | [] => false
  | (p, index) :: rest =>
    let next := advance quote state prevPos p index
    if next.1 = quote.tokens.length then true else scan quote next.1 next.2 rest

/-- Whether a quote stands in the document. -/
def matchQuote (quote : Quote) (pos : List (Int × RawId)) : Bool := scan quote 0 (-1) pos

/-! ### Indexes in a row -/

/-- The indexes stand one behind the other from `start` on. -/
def At (entries : List (Int × RawId)) (start : Int) : List RawId → Prop
  | [] => True
  | index :: rest => (start, index) ∈ entries ∧ At entries (start + 1) rest

theorem At.mono {entries more : List (Int × RawId)} {start : Int} {indexes : List RawId}
    (stands : At entries start indexes) (sub : entries ⊆ more) : At more start indexes := by
  induction indexes generalizing start with
  | nil => trivial
  | cons index rest ih => exact ⟨sub stands.1, ih stands.2⟩

/-- The positions rise along the list. -/
def Rising (entries : List (Int × RawId)) : Prop := entries.Pairwise fun a b => a.1 < b.1

variable {p : Int} {index : RawId} {rest : List (Int × RawId)}

/-- What stands behind the first entry does not need it. -/
theorem at_cons_of_lt {start : Int} {indexes : List RawId} (behind : p < start) :
    At ((p, index) :: rest) start indexes ↔ At rest start indexes := by
  induction indexes generalizing start with
  | nil => exact Iff.rfl
  | cons first later ih =>
    have differs : (start, first) ≠ (p, index) := fun same => by
      cases same
      exact absurd behind (Int.lt_irrefl _)
    show (start, first) ∈ (p, index) :: rest ∧ _ ↔ (start, first) ∈ rest ∧ _
    rw [ih (by omega), List.mem_cons, or_iff_right differs]

/-- **Indexes in a row start at the first entry, or stand in the rest.** -/
theorem at_cons_iff (rising : Rising ((p, index) :: rest)) {start : Int} {first : RawId}
    {later : List RawId} :
    At ((p, index) :: rest) start (first :: later) ↔
      start = p ∧ index = first ∧ At rest (p + 1) later ∨ At rest start (first :: later) := by
  have above : ∀ entry ∈ rest, p < entry.1 := (List.pairwise_cons.mp rising).1
  constructor
  · rintro ⟨member, tail⟩
    rcases List.mem_cons.mp member with same | inRest
    · cases same
      exact .inl ⟨rfl, rfl, (at_cons_of_lt (by omega)).mp tail⟩
    · have behind := above _ inRest
      exact .inr ⟨inRest, (at_cons_of_lt (by omega)).mp tail⟩
  · rintro (⟨rfl, rfl, tail⟩ | stands)
    · exact ⟨List.mem_cons_self, tail.mono (List.subset_cons_self _ _)⟩
    · exact stands.mono (List.subset_cons_self _ _)

/-! ### The walk -/

/-- The walk through a quote with `state` tokens matched, the last of them at `prevPos`, before all
the entries to come. -/
structure Walk (quote : Quote) (entries : List (Int × RawId)) (state : Nat) (prevPos : Int) :
    Prop where
  due : state < quote.indexes.length
  rising : Rising entries
  nonneg : ∀ entry ∈ entries, 0 ≤ entry.1
  last : state = 0 ∧ prevPos = -1 ∨ 0 < state ∧ 0 ≤ prevPos ∧ ∀ entry ∈ entries, prevPos < entry.1

/-- What is still to be found: a whole quote, or the rest of the quote right ahead. -/
def Ahead (quote : Quote) (entries : List (Int × RawId)) (state : Nat) (prevPos : Int) : Prop :=
  (∃ start, At entries start quote.indexes) ∨
    0 < state ∧ At entries (prevPos + 1) (quote.indexes.drop state)

/-- The next entry goes on with the quote. -/
def GoesOn (quote : Quote) (state : Nat) (prevPos p : Int) (index : RawId) : Prop :=
  0 < state ∧ p = prevPos + 1 ∧ quote.indexes[state]? = some index

instance (quote : Quote) (state : Nat) (prevPos p : Int) (index : RawId) :
    Decidable (GoesOn quote state prevPos p index) :=
  inferInstanceAs (Decidable (_ ∧ _ ∧ _))

section Walk

variable {quote : Quote} {state : Nat} {prevPos : Int}

/-- A token due later than first is not the first one. -/
theorem not_first (distinct : quote.indexes.Nodup) (later : 0 < state)
    (due : quote.indexes[state]? = some index) : quote.indexes[0]? ≠ some index := by
  intro first
  have same : state = 0 := (List.getElem?_inj (List.getElem?_eq_some_iff.mp due).1 distinct).mp
    (due.trans first.symm)
  omega

/-- **One step of the walk** through distinct tokens: go on, start anew at this entry, or reset. -/
theorem advance_eq (sizes : quote.indexes.length = quote.tokens.length)
    (distinct : quote.indexes.Nodup) (walk : Walk quote ((p, index) :: rest) state prevPos) :
    advance quote state prevPos p index =
      if GoesOn quote state prevPos p index then (state + 1, p)
      else if quote.indexes[0]? = some index then (1, p) else (0, -1) := by
  unfold advance
  rw [if_pos (sizes ▸ walk.due)]
  by_cases due : quote.indexes[state]? = some index
  · rw [if_pos due]
    rcases walk.last with ⟨rfl, rfl⟩ | ⟨later, nonneg, -⟩
    · have anew : ¬ GoesOn quote 0 (-1) p index := fun goesOn => Nat.lt_irrefl _ goesOn.1
      rw [if_pos rfl, if_neg anew, if_pos due]
    · rw [if_neg (show prevPos ≠ -1 by omega)]
      by_cases next : p = prevPos + 1
      · rw [if_pos next, if_pos (show GoesOn quote state prevPos p index from ⟨later, next, due⟩),
          next]
      · have gap : ¬ GoesOn quote state prevPos p index := fun goesOn => next goesOn.2.1
        rw [if_neg next, if_neg gap, if_neg (not_first distinct later due)]
  · have other : ¬ GoesOn quote state prevPos p index := fun goesOn => due goesOn.2.2
    rw [if_neg due, if_neg other]

/-- The rest of the quote is right ahead exactly if this entry goes on with it. -/
theorem rest_ahead_iff (walk : Walk quote ((p, index) :: rest) state prevPos) :
    0 < state ∧ At ((p, index) :: rest) (prevPos + 1) (quote.indexes.drop state) ↔
      GoesOn quote state prevPos p index ∧ At rest (p + 1) (quote.indexes.drop (state + 1)) := by
  have above : ∀ entry ∈ rest, p < entry.1 := (List.pairwise_cons.mp walk.rising).1
  rw [List.drop_eq_getElem_cons walk.due, at_cons_iff walk.rising]
  constructor
  · rintro ⟨later, ⟨same, token, tail⟩ | stands⟩
    · exact ⟨⟨later, same.symm, token ▸ List.getElem?_eq_getElem walk.due⟩, tail⟩
    · have before : prevPos < p := by
        rcases walk.last with ⟨rfl, -⟩ | ⟨-, -, before⟩
        · exact absurd later (Nat.lt_irrefl _)
        · exact before _ List.mem_cons_self
      have behind := above _ stands.1
      simp only at behind
      omega
  · rintro ⟨⟨later, same, token⟩, tail⟩
    exact ⟨later, .inl ⟨same.symm, ((List.getElem?_eq_some_iff.mp token).2).symm, tail⟩⟩

/-- A whole quote starts at this entry, or stands in the rest. -/
theorem whole_ahead_iff (walk : Walk quote ((p, index) :: rest) state prevPos) :
    (∃ start, At ((p, index) :: rest) start quote.indexes) ↔
      quote.indexes[0]? = some index ∧ At rest (p + 1) (quote.indexes.drop 1) ∨
        ∃ start, At rest start quote.indexes := by
  have some : 0 < quote.indexes.length := Nat.lt_of_le_of_lt (Nat.zero_le _) walk.due
  obtain ⟨first, later, shape⟩ := List.exists_cons_of_length_pos some
  rw [shape]
  simp only [at_cons_iff walk.rising, List.getElem?_cons_zero, Option.some.injEq, List.drop_one,
    List.tail_cons]
  constructor
  · rintro ⟨start, ⟨-, token, tail⟩ | stands⟩
    · exact .inl ⟨token.symm, tail⟩
    · exact .inr ⟨start, stands⟩
  · rintro (⟨token, tail⟩ | ⟨start, stands⟩)
    · exact ⟨p, .inl ⟨rfl, token.symm, tail⟩⟩
    · exact ⟨start, .inr stands⟩

/-- **The walk finds what is ahead.** -/
theorem scan_iff (sizes : quote.indexes.length = quote.tokens.length)
    (distinct : quote.indexes.Nodup) (entries : List (Int × RawId)) :
    ∀ {state : Nat} {prevPos : Int}, Walk quote entries state prevPos →
      (scan quote state prevPos entries = true ↔ Ahead quote entries state prevPos) := by
  induction entries with
  | nil =>
    intro state prevPos walk
    refine iff_of_false Bool.false_ne_true ?_
    rintro (⟨start, stands⟩ | ⟨-, stands⟩)
    · rw [← List.drop_zero (l := quote.indexes),
        List.drop_eq_getElem_cons (Nat.lt_of_le_of_lt (Nat.zero_le _) walk.due)] at stands
      cases stands.1
    · rw [List.drop_eq_getElem_cons walk.due] at stands
      cases stands.1
  | cons entry rest ih =>
    intro state prevPos walk
    obtain ⟨p, index⟩ := entry
    obtain ⟨above, rising⟩ := List.pairwise_cons.mp walk.rising
    have nonneg : ∀ entry ∈ rest, 0 ≤ entry.1 := fun entry member =>
      walk.nonneg entry (List.mem_cons_of_mem _ member)
    -- a token matched here: the quote ends, or the walk goes on behind it
    have matched : ∀ next, 0 < next → next ≤ quote.indexes.length →
        ((if next = quote.tokens.length then true else scan quote next p rest) = true ↔
          (∃ start, At rest start quote.indexes) ∨ At rest (p + 1) (quote.indexes.drop next)) := by
      intro next positive bound
      split
      · rename_i ends
        rw [ends, ← sizes, List.drop_length]
        exact iff_of_true rfl (.inr trivial)
      · rename_i goesOn
        have walk' : Walk quote rest next p :=
          ⟨by omega, rising, nonneg, .inr ⟨positive, walk.nonneg _ List.mem_cons_self, above⟩⟩
        rw [ih walk', Ahead]
        simp only [positive, true_and]
    simp only [scan, advance_eq sizes distinct walk]
    rw [Ahead, whole_ahead_iff walk, rest_ahead_iff walk]
    by_cases goesOn : GoesOn quote state prevPos p index
    · have later : quote.indexes[0]? ≠ some index := not_first distinct goesOn.1 goesOn.2.2
      simp only [later, goesOn, if_true, false_and, true_and, false_or]
      exact matched (state + 1) (Nat.succ_pos _) walk.due
    · simp only [goesOn, if_false, false_and, or_false]
      by_cases first : quote.indexes[0]? = some index
      · simp only [first, if_true, true_and]
        rw [or_comm]
        exact matched 1 Nat.one_pos (Nat.lt_of_le_of_lt (Nat.zero_le _) walk.due)
      · have reset : Walk quote rest 0 (-1) :=
          ⟨Nat.lt_of_le_of_lt (Nat.zero_le _) walk.due, rising, nonneg, .inl ⟨rfl, rfl⟩⟩
        have open' : 0 ≠ quote.tokens.length := by
          have due := reset.due
          omega
        simp only [first, if_false, false_and, false_or, open']
        rw [ih reset, Ahead]
        simp only [Nat.lt_irrefl, false_and, or_false]

/-- **The walk finds a quote of distinct tokens exactly if it stands in the document.** A quote
without tokens is found in every document with a position. -/
theorem matchQuote_iff (sizes : quote.indexes.length = quote.tokens.length)
    (distinct : quote.indexes.Nodup) {pos : List (Int × RawId)} (rising : Rising pos)
    (nonneg : ∀ entry ∈ pos, 0 ≤ entry.1) :
    matchQuote quote pos = true ↔ pos ≠ [] ∧ ∃ start, At pos start quote.indexes := by
  unfold matchQuote
  by_cases empty : quote.indexes = []
  · have none : quote.tokens.length = 0 := by rw [← sizes, empty, List.length_nil]
    cases pos with
    | nil => exact iff_of_false Bool.false_ne_true fun found => found.1 rfl
    | cons entry rest =>
      refine iff_of_true ?_ ⟨List.cons_ne_nil _ _, 0, empty ▸ trivial⟩
      simp [scan, advance, none]
  · have due : 0 < quote.indexes.length := List.length_pos_of_ne_nil empty
    rw [scan_iff sizes distinct pos ⟨due, rising, nonneg, .inl ⟨rfl, rfl⟩⟩, Ahead]
    simp only [Nat.lt_irrefl, false_and, or_false]
    refine (and_iff_right_of_imp ?_).symm
    rintro ⟨start, stands⟩ rfl
    rw [← List.drop_zero (l := quote.indexes), List.drop_eq_getElem_cons due] at stands
    cases stands.1

end Walk

end Wookie.FindResult
