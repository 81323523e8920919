/-
**The quote loop as a block matcher.**

The loop of `on_result_ready` over the positions of a document reads the ids of a quote by number.
`matchQuoteChecked` is that loop with every access to the ids checked, over any map from positions
to ids: gaps and ids of other tokens may stand anywhere in it.

* `matchQuoteChecked_eq` — a quote with as many ids as tokens is never read past its end.
* `quote_loop_matches_blocks` — **the loop ends with the quote found exactly if the quote's ids
  stand one behind the other somewhere in the map.**
-/

import Wookie.Search.Find

namespace Wookie.FindResult

/-! ### Checked accesses -/

/-- `qit->indexes[n]`; an access past the end is an error. -/
def Quote.indexAt (quote : Quote) (n : Nat) : Except OutOfRange RawId :=
  match quote.indexes[n]? with
  | some index => .ok index
  | none => .error .outOfRange

/-- The body of the loop over the positions, its accesses checked. -/
def advanceChecked (quote : Quote) (state : Nat) (prevPos p : Int) (index : RawId) :
    Except OutOfRange (Nat × Int) :=
  if state < quote.tokens.length then do
    let due ← quote.indexAt state
    if due = index then
      return if prevPos = -1 then (state + 1, p)
        else if p = prevPos + 1 then (state + 1, prevPos + 1)
        else (0, -1)
    else
      -- check again the first index in quote
      let first ← quote.indexAt 0
      return if first = index then (1, p) else (0, -1)
  else return (state, prevPos)

/-- The loop over the positions, its accesses checked. -/
def scanChecked (quote : Quote) (state : Nat) (prevPos : Int) :
    List (Int × RawId) → Except OutOfRange Bool
  | [] => return false
  | (p, index) :: rest => do
    let next ← advanceChecked quote state prevPos p index
    if next.1 = quote.tokens.length then return true
    else scanChecked quote next.1 next.2 rest

/-- `quote_ok`, after the loop over a position map. -/
def matchQuoteChecked (quote : Quote) (pos : Positions) : Except OutOfRange Bool :=
  scanChecked quote 0 (-1) pos.toList

section Checked

variable {quote : Quote}

theorem indexAt_of_lt {n : Nat} (bound : n < quote.indexes.length) :
    quote.indexAt n = .ok quote.indexes[n] := by
  rw [Quote.indexAt, List.getElem?_eq_getElem bound]

/-- **One round of the loop reads within the ids.** -/
theorem advanceChecked_eq (sizes : quote.indexes.length = quote.tokens.length) (state : Nat)
    (prevPos p : Int) (index : RawId) :
    advanceChecked quote state prevPos p index = .ok (advance quote state prevPos p index) := by
  unfold advanceChecked advance
  split
  · rename_i open'
    have bound : state < quote.indexes.length := sizes ▸ open'
    have first : 0 < quote.indexes.length := Nat.lt_of_le_of_lt (Nat.zero_le _) bound
    rw [indexAt_of_lt bound, indexAt_of_lt first, List.getElem?_eq_getElem bound,
      List.getElem?_eq_getElem first]
    simp only [bind, Except.bind, pure, Except.pure, Option.some.injEq]
    split <;> rfl
  · rfl

theorem scanChecked_eq (sizes : quote.indexes.length = quote.tokens.length)
    (entries : List (Int × RawId)) : ∀ (state : Nat) (prevPos : Int),
      scanChecked quote state prevPos entries = .ok (scan quote state prevPos entries) := by
  induction entries with
  | nil => exact fun _ _ => rfl
  | cons entry rest ih =>
    intro state prevPos
    simp only [scanChecked, scan, advanceChecked_eq sizes, bind, Except.bind]
    split
    · rfl
    · exact ih _ _

/-- **No access leaves the ids** of a quote that has one for each token. -/
theorem matchQuoteChecked_eq (sizes : quote.indexes.length = quote.tokens.length)
    (pos : Positions) : matchQuoteChecked quote pos = .ok (matchQuote quote pos.toList) :=
  scanChecked_eq sizes pos.toList 0 (-1)

end Checked

/-! ### Blocks of a map -/

/-- The ids are carried by the positions from `start` on. -/
def Block (pos : Positions) (start : Int) (ids : List RawId) : Prop :=
  ∀ (i : Nat) (bound : i < ids.length), pos[start + i]? = some ids[i]

/-- Ids in a row among the entries of a map are a block of it. -/
theorem at_toList_iff {pos : Positions} {start : Int} {ids : List RawId} :
    At pos.toList start ids ↔ Block pos start ids := by
  induction ids generalizing start with
  | nil => exact iff_of_true trivial fun i bound => absurd bound (Nat.not_lt_zero i)
  | cons first rest ih =>
    show (start, first) ∈ pos.toList ∧ At pos.toList (start + 1) rest ↔ _
    rw [ih, Std.TreeMap.mem_toList_iff_getElem?_eq_some]
    constructor
    · rintro ⟨here, later⟩ i bound
      cases i with
      | zero => simpa using here
      | succ i =>
        have next := later i (Nat.lt_of_succ_lt_succ bound)
        rw [List.getElem_cons_succ, ← next]
        congr 1
        omega
    · intro block
      refine ⟨by simpa using block 0 (Nat.succ_pos _), fun i bound => ?_⟩
      have next := block (i + 1) (Nat.succ_lt_succ bound)
      rw [List.getElem_cons_succ] at next
      rw [← next]
      congr 1
      omega

/-- **The loop finds a quote exactly if it is a block of the map**, and reads no id out of range. -/
theorem quote_loop_matches_blocks (ell : Elliptics) (quote : Quote) (pos : Positions)
    (filled : quote.indexes = transformTokens ell quote.tokens) (some : quote.indexes ≠ [])
    (distinct : quote.indexes.Nodup) (nonneg : ∀ p ∈ pos, 0 ≤ p) :
    ∃ quoteOk, matchQuoteChecked quote pos = .ok quoteOk ∧
      (quoteOk = true ↔ ∃ start, Block pos start quote.indexes) := by
  have sizes : quote.indexes.length = quote.tokens.length := by
    rw [filled, transformTokens, List.length_map]
  have entries : ∀ entry ∈ pos.toList, 0 ≤ entry.1 := fun entry member => by
    have held := Std.TreeMap.mem_toList_iff_getElem?_eq_some.mp member
    exact nonneg _ (Std.TreeMap.mem_iff_isSome_getElem?.mpr (held ▸ rfl))
  refine ⟨_, matchQuoteChecked_eq sizes pos, ?_⟩
  rw [matchQuote_iff sizes distinct (rising_toList pos) entries]
  simp only [at_toList_iff]
  refine and_iff_right_of_imp ?_
  rintro ⟨start, block⟩ empty
  have first := block 0 (List.length_pos_of_ne_nil some)
  have member := Std.TreeMap.mem_toList_iff_getElem?_eq_some.mpr first
  rw [empty] at member
  cases member

/-- The quote `"a b"`. -/
def twoTokens : Quote :=
  ⟨['a', ' ', 'b'], [['a'], ['b']], transformTokens .plain [['a'], ['b']]⟩

/-- A false start, a gap and another token before the quote. -/
def falseStart : Positions :=
  ((((∅ : Positions).insert 0 (Elliptics.plain.transform ['a'])).insert 2
    (Elliptics.plain.transform ['c'])).insert 3 (Elliptics.plain.transform ['a'])).insert 4
    (Elliptics.plain.transform ['b'])

theorem quote_loop_matches_blocks_falseStart :
    ∃ quoteOk, matchQuoteChecked twoTokens falseStart = .ok quoteOk ∧
      (quoteOk = true ↔ ∃ start, Block falseStart start twoTokens.indexes) := by
  refine quote_loop_matches_blocks .plain twoTokens falseStart rfl (List.cons_ne_nil _ _)
    (by decide +kernel) fun p member => ?_
  simp only [falseStart, Std.TreeMap.mem_insert, Std.compare_eq_iff_eq,
    Std.TreeMap.not_mem_emptyc, or_false] at member
  omega

end Wookie.FindResult
