/-
**The request: quotes, tokens and the indexes to look up.**

`operators_found` runs over the query and notes where its quoted strings stand; `prepare` cuts them
out, and `find` reads the tokens of every quote and of what is left, and sends the sorted set of all
of them to `find_all_indexes`.

* `operatorsFound_phrase`, `prepare_query` — a query with at most one quoted string is cut where its
  quotes stand.
* `find_query` — the request such a query makes, and the names it looks up.
-/

import Wookie.Search.Store

namespace Wookie.FindResult

/-! ### `operators_found` -/

/-- `struct operators_found`. `q1` is `none` for -1, `pos` the position of the next char. Both are
of type `int` in the source: the query is one of fewer than `2 ^ 31` chars. -/
structure OperatorsFound where
  q1 : Option Nat
  pos : Nat
  quotes : List (Nat × Nat)
  negative : List Nat

/-- `operators_found::operators_found()`. -/
def OperatorsFound.new : OperatorsFound := ⟨none, 0, [], []⟩

/-- `operators_found::operator()`. -/
def OperatorsFound.apply (scope : OperatorsFound) (ch : Char) : OperatorsFound :=
  if ch = '\"' then
    match scope.q1 with
    | none => { scope with q1 := some (scope.pos + 1), pos := scope.pos + 1 }
    | some q1 =>
      { scope with q1 := none, quotes := scope.quotes ++ [(q1, scope.pos)], pos := scope.pos + 1 }
  else if ch = '-' then
    { scope with negative := scope.negative ++ [scope.pos], pos := scope.pos + 1 }
  else { scope with pos := scope.pos + 1 }

/-- `std::for_each(text.begin(), text.end(), operators_found())`. -/
def operatorsFound (text : Str) : OperatorsFound := text.foldl OperatorsFound.apply .new

/-- A text without quotes moves the position only. -/
theorem foldl_unquoted {text : Str} (unquoted : '\"' ∉ text) (scope : OperatorsFound) :
    ∃ negative, text.foldl OperatorsFound.apply scope =
      { scope with pos := scope.pos + text.length, negative } := by
  induction text generalizing scope with
  | nil => exact ⟨scope.negative, rfl⟩
  | cons ch rest ih =>
    have plain : ch ≠ '\"' := fun same => unquoted (same ▸ List.mem_cons_self)
    have later : '\"' ∉ rest := fun member => unquoted (List.mem_cons_of_mem _ member)
    obtain ⟨negative, read⟩ := ih later (scope.apply ch)
    refine ⟨negative, ?_⟩
    rw [List.foldl_cons, read, OperatorsFound.apply, if_neg plain]
    split <;> simp only [List.length_cons, OperatorsFound.mk.injEq, true_and, and_true] <;> omega

/-- One quote char alone closes nothing. -/
theorem foldl_single {text : Str} (few : text.count '\"' ≤ 1) {scope : OperatorsFound}
    (outside : scope.q1 = none) :
    (text.foldl OperatorsFound.apply scope).quotes = scope.quotes := by
  induction text generalizing scope with
  | nil => rfl
  | cons ch rest ih =>
    rw [List.foldl_cons]
    by_cases quote : ch = '\"'
    · subst quote
      have none : '\"' ∉ rest := by
        rw [← List.count_eq_zero]
        rw [List.count_cons_self] at few
        omega
      obtain ⟨negative, read⟩ := foldl_unquoted none (scope.apply '\"')
      rw [read]
      simp [OperatorsFound.apply, outside]
    · rw [List.count_cons_of_ne quote] at few
      have kept : (scope.apply ch).q1 = none ∧ (scope.apply ch).quotes = scope.quotes := by
        rw [OperatorsFound.apply, if_neg quote]
        split <;> exact ⟨outside, rfl⟩
      rw [ih few kept.1, kept.2]

/-- **A query with at most one quote char has no quoted string.** -/
theorem operatorsFound_plain {text : Str} (few : text.count '\"' ≤ 1) :
    (operatorsFound text).quotes = [] :=
  foldl_single few rfl

/-- **The quoted string stands between the first two quote chars.** -/
theorem operatorsFound_phrase {before phrase after : Str} (unquoted : '\"' ∉ before)
    (inner : '\"' ∉ phrase) (few : after.count '\"' ≤ 1) :
    (operatorsFound (before ++ '\"' :: (phrase ++ '\"' :: after))).quotes =
      [(before.length + 1, before.length + 1 + phrase.length)] := by
  obtain ⟨first, readBefore⟩ := foldl_unquoted unquoted .new
  obtain ⟨second, readPhrase⟩ := foldl_unquoted inner
    (OperatorsFound.apply { OperatorsFound.new with
      pos := OperatorsFound.new.pos + before.length, negative := first } '\"')
  rw [operatorsFound, List.foldl_append, readBefore, List.foldl_cons, List.foldl_append, readPhrase,
    List.foldl_cons, foldl_single few]
  · simp [OperatorsFound.apply, OperatorsFound.new]
  · simp [OperatorsFound.apply, OperatorsFound.new]

/-! ### `prepare` -/

/-- `std::out_of_range`. -/
inductive OutOfRange
  | outOfRange
  deriving DecidableEq, Repr

/-- `std::string::substr`. -/
def substr (text : Str) (pos n : Nat) : Except OutOfRange Str :=
  if text.length < pos then .error .outOfRange else .ok ((text.drop pos).take n)

/-- `std::string::replace`. -/
def replace (text : Str) (pos n : Nat) (str : Str) : Except OutOfRange Str :=
  if text.length < pos then .error .outOfRange
  else .ok (text.take pos ++ str ++ text.drop (pos + n))

/-- `struct quote`. -/
structure Quote where
  text : Str
  tokens : List Str
  indexes : List RawId
  deriving DecidableEq, Repr

/-- `quote::quote(const std::string &)`. -/
def Quote.new (txt : Str) : Quote := ⟨txt, [], []⟩

/-- `struct find_request`. -/
structure FindRequest where
  quotes : List Quote
  text : Str
  textTokens : List Str
  deriving DecidableEq, Repr

/-- The body of the loop in `find_result::prepare`. The offsets are those of the whole text, also
when an earlier quote was already cut out. -/
def cutQuote (text : Str) (res : FindRequest) (op : Nat × Nat) : Except OutOfRange FindRequest := do
  let quote ← substr text op.1 (op.2 - op.1)
  let rest ← replace res.text op.1 (op.2 - op.1) []
  return { res with quotes := res.quotes ++ [.new quote], text := rest }

/-- `find_result::prepare`. -/
def prepare (text : Str) : Except OutOfRange FindRequest :=
  (operatorsFound text).quotes.foldlM (cutQuote text) ⟨[], text, []⟩

/-! ### `find` -/

/-- The tokens and indexes of a quote. -/
def Quote.read (loc : Locale) (ell : Elliptics) (quote : Quote) : Quote :=
  let tokens := (Split.feed loc quote.text quote.tokens).2
  { quote with tokens, indexes := transformTokens ell tokens }

/-- `find_result::find`: the request, and the names passed to `find_all_indexes`. -/
def find (loc : Locale) (ell : Elliptics) (text : Str) :
    Except OutOfRange (FindRequest × List Str) := do
  let request ← prepare text
  let quotes := request.quotes.map (Quote.read loc ell)
  let textTokens := (Split.feed loc request.text request.textTokens).2
  let strIndexes := quotes.flatMap (·.tokens) ++ textTokens
  return ({ request with quotes, textTokens }, sortUnique strIndexes)

/-! ### Queries with at most one quoted string -/

/-- A query made of unquoted text and at most one quoted string. One more quote char may stand after
it: it closes nothing. -/
inductive Query
  | plain (text : Str) (few : text.count '\"' ≤ 1)
  | phrase (before inside after : Str) (unquoted : '\"' ∉ before) (inner : '\"' ∉ inside)
      (few : after.count '\"' ≤ 1)

namespace Query

/-- The text of the query. -/
def text : Query → Str
  | .plain text _ => text
  | .phrase before inside after _ _ _ => before ++ '\"' :: (inside ++ '\"' :: after)

/-- The text without the quoted string. -/
def unquoted : Query → Str
  | .plain text _ => text
  | .phrase before _ after _ _ _ => before ++ '\"' :: '\"' :: after

/-- The quoted string, if there is one. -/
def quoted : Query → Option Str
  | .plain _ _ => none
  | .phrase _ inside _ _ _ _ => some inside

/-- The words of the query. -/
def words (loc : Locale) (query : Query) : List Str :=
  query.quoted.toList.flatMap loc.words ++ loc.words query.unquoted

end Query

theorem foldlM_single {ε α β : Type} (f : β → α → Except ε β) (start : β) (a : α) :
    List.foldlM f start [a] = f start a := by
  simp only [List.foldlM_cons, List.foldlM_nil, bind_pure]

/-- **The quoted string is cut out of the text.** -/
theorem prepare_query (query : Query) :
    prepare query.text = .ok ⟨query.quoted.toList.map .new, query.unquoted, []⟩ := by
  cases query with
  | plain text few =>
    rw [prepare, show Query.text (.plain text few) = text from rfl, operatorsFound_plain few]
    rfl
  | phrase before phrase after unquoted inner few =>
    have length : before.length + 1 ≤ (before ++ '\"' :: (phrase ++ '\"' :: after)).length := by
      simp
    have head : (before ++ '\"' :: (phrase ++ '\"' :: after)).drop (before.length + 1) =
        phrase ++ '\"' :: after := by
      rw [List.drop_append]
      simp
    have tail : (before ++ '\"' :: (phrase ++ '\"' :: after)).drop
        (before.length + 1 + phrase.length) = '\"' :: after := by
      rw [← List.drop_drop, head]
      simp
    have front : (before ++ '\"' :: (phrase ++ '\"' :: after)).take (before.length + 1) =
        before ++ ['\"'] := by
      rw [List.take_append, List.take_of_length_le (Nat.le_succ _)]
      simp
    simp only [Query.text, Query.quoted, Query.unquoted, prepare,
      operatorsFound_phrase unquoted inner few, foldlM_single, cutQuote, substr, replace,
      if_neg (Nat.not_lt.mpr length), Nat.add_sub_cancel_left, head, tail, front]
    simp [bind, Except.bind, pure, Except.pure]

/-- The quote of a quoted string. -/
def quoteOf (loc : Locale) (ell : Elliptics) (phrase : Str) : Quote :=
  ⟨phrase, (loc.words phrase).eraseDups, ((loc.words phrase).eraseDups).map ell.transform⟩

theorem read_new (loc : Locale) (ell : Elliptics) (phrase : Str) :
    (Quote.new phrase).read loc ell = quoteOf loc ell phrase := by
  simp only [Quote.read, Quote.new, Split.feed_tokens, List.nil_append, transformTokens, quoteOf]

/-- The request of a query. -/
def Query.request (loc : Locale) (ell : Elliptics) (query : Query) : FindRequest :=
  ⟨query.quoted.toList.map (quoteOf loc ell), query.unquoted, (loc.words query.unquoted).eraseDups⟩

/-- The names a query looks up. -/
def Query.names (loc : Locale) (query : Query) : List Str :=
  sortUnique (query.quoted.toList.flatMap (fun phrase => (loc.words phrase).eraseDups) ++
    (loc.words query.unquoted).eraseDups)

/-- **What `find` makes of a query.** -/
theorem find_query (loc : Locale) (ell : Elliptics) (query : Query) :
    find loc ell query.text = .ok (query.request loc ell, query.names loc) := by
  simp only [find, prepare_query, bind, Except.bind, pure, Except.pure, List.map_map,
    Function.comp_def, read_new, Split.feed_tokens, List.nil_append, Query.request, Query.names,
    List.flatMap_map, quoteOf]
  rfl

/-- **The names looked up are the words of the query.** -/
theorem mem_names {loc : Locale} {query : Query} {name : Str} :
    name ∈ query.names loc ↔ name ∈ query.words loc := by
  rw [Query.names, mem_sortUnique, Query.words]
  simp only [List.mem_append, List.mem_flatMap, List.mem_eraseDups]

end Wookie.FindResult
