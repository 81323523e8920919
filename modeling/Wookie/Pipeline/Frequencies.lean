/-
**Term frequencies: `html_processor` and `feature_extractor`.**

`html_processor` puts `parser.tokens()` into the field `text`, one element for each text node of the
page. `feature_extractor`, an application of its own, counts the elements of that field and stores
the counts as `terms_frequencies`. The words of a page are what `parser::word_tokens` makes of its
text nodes.

* `extractFrequencies` — both applications, with the transfer between them.
* `HoldsFrequencies` — the field is the table of how often each word occurs.
* `frequencies_iff` — **the field holds the frequencies of the words exactly if the text nodes, as
  they stand, are the words up to order.**
* `two_words_one_term` — a page with one text node of two words.
-/

import Wookie.Library.Tally
import Wookie.Parser
import Wookie.Pipeline.Values

namespace Wookie

open Library

/-! ### The applications -/

namespace MetaInfo

/-- The meta information `first_processor` makes of an update. -/
def fresh (url body : Str) : MetaInfo := ((∅ : MetaInfo).setUrl url).setBody body

/-- `body`. -/
def body (info : MetaInfo) : Except ConvertError Str := info.value "body".toList

end MetaInfo

/-- `std::vector<std::string>`, the type of `text`. -/
abbrev TypeTraits.strings : TypeTraits (List Str) := .vector .string

/-- `html_processor::process_handler::on_request`, up to the push. An exception is `none`. -/
def htmlProcessor (env : ParserEnv) (info : MetaInfo) : Option MetaInfo := do
  let _ ← info.url.toOption
  let page ← info.body.toOption
  let parser ← Parser.feedText env page
  return info.setValueAs .strings "text".toList parser.tokens

/-- `feature_extractor::process_handler::on_request`, up to the push. An exception is `none`. -/
def featureExtractor (info : MetaInfo) : Option MetaInfo := do
  let _ ← info.url.toOption
  let words ← (info.valueAs .strings "text".toList).toOption
  return info.setValueAs .frequencies "terms_frequencies".toList (tally words).toList

/-- A fresh document passes through both applications. -/
def extractFrequencies (env : ParserEnv) (url body : Str) : Option MetaInfo := do
  let info ← htmlProcessor env (.fresh url body)
  featureExtractor (.unpack info.pack)

/-! ### The field -/

/-- The field `terms_frequencies` lists each of the words once, with its number of occurrences. -/
def HoldsFrequencies (info : MetaInfo) (words : List Str) : Prop :=
  ∃ table, info.valueAs .frequencies "terms_frequencies".toList = .ok table ∧ IsTally table words

/-- The history of a document with these tokens. -/
def history (url body : Str) (tokens : List Str) : List MetaEvent :=
  [.setUrl url, .setBody body, .setValue "text".toList ⟨.strings, tokens⟩, .transfer,
    .setValue "terms_frequencies".toList ⟨.frequencies, (tally tokens).toList⟩]

/-- What a history has set under a name first is read back by its own type. -/
theorem valueAs_own {events : List MetaEvent} {name : Str} {T : Type} {traits : TypeTraits T}
    {value : T} (found : (settings events name).head? = some ⟨traits, value⟩) :
    MetaInfo.valueAs traits (.ofEvents events) name = .ok value := by
  rw [valueAs_ofEvents found, traits.unpack_pack]

theorem url_ofEvents {events : List MetaEvent} {url : Str}
    (found : (settings events "url".toList).head? = some ⟨.string, url⟩) :
    (MetaInfo.ofEvents events).url = .ok url := valueAs_own found

theorem body_ofEvents {events : List MetaEvent} {body : Str}
    (found : (settings events "body".toList).head? = some ⟨.string, body⟩) :
    (MetaInfo.ofEvents events).body = .ok body := valueAs_own found

/-- What `html_processor` makes of a document. -/
theorem htmlProcessor_eq {env : ParserEnv} {info : MetaInfo} {url body : Str} {parser : Parser}
    (urlRead : info.url = .ok url) (bodyRead : info.body = .ok body)
    (fed : Parser.feedText env body = some parser) :
    htmlProcessor env info = some (info.setValueAs .strings "text".toList parser.tokens) := by
  rw [htmlProcessor, urlRead, bodyRead]
  simp only [Except.toOption, Option.bind_eq_bind, Option.bind_some, fed]
  rfl

/-- What `feature_extractor` makes of a document. -/
theorem featureExtractor_eq {info : MetaInfo} {url : Str} {words : List Str}
    (urlRead : info.url = .ok url)
    (textRead : info.valueAs .strings "text".toList = .ok words) :
    featureExtractor info =
      some (info.setValueAs .frequencies "terms_frequencies".toList (tally words).toList) := by
  rw [featureExtractor, urlRead, textRead]
  rfl

/-- **What both applications make of a page** whose tokens are extracted. -/
theorem extractFrequencies_eq {env : ParserEnv} {url body : Str} {parser : Parser}
    (fed : Parser.feedText env body = some parser) :
    extractFrequencies env url body = some (.ofEvents (history url body parser.tokens)) := by
  have fresh : MetaInfo.fresh url body = .ofEvents [.setUrl url, .setBody body] := rfl
  have processed : htmlProcessor env (.ofEvents [.setUrl url, .setBody body]) =
      some (.ofEvents [.setUrl url, .setBody body,
        .setValue "text".toList ⟨.strings, parser.tokens⟩]) :=
    htmlProcessor_eq (url_ofEvents rfl) (body_ofEvents rfl) fed
  have extracted : featureExtractor (.ofEvents [.setUrl url, .setBody body,
      .setValue "text".toList ⟨.strings, parser.tokens⟩, .transfer]) =
      some (.ofEvents (history url body parser.tokens)) :=
    featureExtractor_eq (url_ofEvents rfl) (valueAs_own rfl)
  rw [extractFrequencies, fresh, processed]
  exact extracted

/-- **The field holds the frequencies of the tokens.** -/
theorem holdsFrequencies_iff {url body : Str} {tokens words : List Str} :
    HoldsFrequencies (.ofEvents (history url body tokens)) words ↔ tokens.Perm words := by
  have field : MetaInfo.valueAs .frequencies (.ofEvents (history url body tokens))
      "terms_frequencies".toList = .ok (tally tokens).toList := valueAs_own rfl
  constructor
  · rintro ⟨table, read, counted⟩
    rw [field] at read
    cases read
    exact (isTally_tally tokens).iff_perm.mp counted
  · exact fun same => ⟨_, field, (isTally_tally tokens).iff_perm.mpr same⟩

/-- **The applications hand on the frequencies of the page's words**, as segmented or in lower case,
exactly if its text nodes are these words up to order. -/
theorem frequencies_iff (env : ParserEnv) (loc : Locale) (url body : Str) {parser : Parser}
    (fed : Parser.feedText env body = some parser) :
    (Parser.pageTexts env body).mapM (Parser.convert env) = some parser.tokens ∧
    ∃ info, extractFrequencies env url body = some info ∧
      (HoldsFrequencies info (parser.tokens.flatMap loc.segment) ∨
          HoldsFrequencies info (parser.wordTokens loc) ↔
        parser.tokens.Perm (parser.tokens.flatMap loc.segment) ∨
          parser.tokens.Perm (parser.wordTokens loc)) := by
  refine ⟨Parser.tokens_feedText fed, _, extractFrequencies_eq fed, ?_⟩
  rw [holdsFrequencies_iff, holdsFrequencies_iff]

/-! ### A page of two words -/

/-- Pages are one text node, in utf8. -/
def ParserEnv.plain : ParserEnv where
  tidy page := some (.node ⟨false, none, false, false, false, false, []⟩
    [.node ⟨false, none, false, false, true, true, page⟩ []])
  detect _ := "utf8".toList
  charsetConvert _ text := some text

/-- A page of one word. -/
theorem frequencies_iff_oneWord :
    (Parser.pageTexts .plain ['a']).mapM (Parser.convert .plain) = some [['a']] ∧
    ∃ info, extractFrequencies .plain ['u'] ['a'] = some info ∧
      (HoldsFrequencies info ([['a']].flatMap Locale.ascii.segment) ∨
          HoldsFrequencies info ((Parser.mk [] [['a']]).wordTokens .ascii) ↔
        [['a']].Perm ([['a']].flatMap Locale.ascii.segment) ∨
          [['a']].Perm ((Parser.mk [] [['a']]).wordTokens .ascii)) :=
  frequencies_iff .plain .ascii ['u'] ['a'] rfl

/-- **The page `a b`** has the one term `a b`. -/
theorem two_words_one_term :
    ∃ parser info, Parser.feedText .plain ['a', ' ', 'b'] = some parser ∧
      extractFrequencies .plain ['u'] ['a', ' ', 'b'] = some info ∧
      ¬ HoldsFrequencies info (parser.tokens.flatMap Locale.ascii.segment) ∧
      ¬ HoldsFrequencies info (parser.wordTokens .ascii) := by
  have fed : Parser.feedText .plain ['a', ' ', 'b'] = some ⟨[], [['a', ' ', 'b']]⟩ := rfl
  refine ⟨_, _, fed, extractFrequencies_eq fed, ?_, ?_⟩
  · rw [holdsFrequencies_iff]
    decide
  · rw [holdsFrequencies_iff]
    decide

end Wookie
