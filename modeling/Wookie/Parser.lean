/-
**The text of a page: `parser`.**

`feed_text` walks over the tree that tidy makes of a page and collects one token for each text node
outside of scripts and styles, converted to utf8. tidy, the charset detector and the conversion are
parameters.

* `TidyNode.texts` — the texts of a tree that are collected, in the order of the document.
* `tokens_feedText` — **the tokens of a page are the converted texts of its tree.**
* `TidyNode.hrefs`, `urls_feedText` — the same for its links: those of scripts and styles are left
  out, but for the link of such a node itself.
-/

import Wookie.Search.Split

namespace Wookie

/-- What `traverse_tree` asks tidy about a node. -/
structure TidyInfo where
  /-- `tidyNodeGetId(child) == TidyTag_A`. -/
  isA : Bool
  /-- The value of the attribute `href`. -/
  href : Option Str
  isScript : Bool
  isStyle : Bool
  isText : Bool
  hasText : Bool
  text : Str

/-- A node of the tree that tidy delivers. -/
inductive TidyNode
  | node (info : TidyInfo) (children : List TidyNode)

/-- What `parser` uses of tidy, of `warp::ngram::detector` and of `charset_convert`. -/
structure ParserEnv where
  /-- `tidyParseString`: the tree, unless the page cannot be parsed. -/
  tidy : Str → Option TidyNode
  /-- `m_charset_detector.detect`. -/
  detect : Str → Str
  /-- `charset_convert("utf8", enc).convert(text)`. The constructor may throw. -/
  charsetConvert : Str → Str → Option Str

/-- The members of `parser` that `feed_text` fills. -/
structure Parser where
  urls : List Str
  tokens : List Str

namespace Parser

variable (env : ParserEnv)

/-- `parser::convert`. An exception is `none`. -/
def convert (text : Str) : Option Str :=
  let enc := env.detect text
  if enc ≠ [] ∧ enc ≠ "utf8".toList then
    (env.charsetConvert enc text).map fun out =>
      if out.length > text.length / 3 then out else text
  else some text

/-- The branch of a link. -/
def pushUrl (info : TidyInfo) (parser : Parser) : Option Parser :=
  match info.isA, info.href with
  | true, some href => (convert env href).map fun url =>
    { parser with urls := parser.urls ++ [url] }
  | _, _ => some parser

/-- The branch of a text node. -/
def pushText (info : TidyInfo) (parser : Parser) : Option Parser :=
  if info.isText && info.hasText then
    (convert env info.text).map fun token => { parser with tokens := parser.tokens ++ [token] }
  else some parser

end Parser

/-- What tidy says of the node. -/
def TidyNode.info : TidyNode → TidyInfo
  | .node info _ => info

namespace Parser

variable (env : ParserEnv)

mutual

/-- `parser::traverse_tree`. -/
def traverseTree : TidyNode → Parser → Option Parser
  | .node _ children, parser => traverseChildren children parser

/-- Its loop over the children. -/
def traverseChildren : List TidyNode → Parser → Option Parser
  | [], parser => some parser
  | child :: rest, parser => do
    let parser ← pushUrl env child.info parser
    if child.info.isScript || child.info.isStyle then traverseChildren rest parser
    else
      let parser ← pushText env child.info parser
      let parser ← traverseTree child parser
      traverseChildren rest parser

end

/-- `parser::feed_text`, after `reset`. -/
def feedText (page : Str) : Option Parser :=
  if page = [] then some ⟨[], []⟩
  else (env.tidy page).bind fun html => traverseTree env html ⟨[], []⟩

/-- `parser::word_tokens`. -/
def wordTokens (loc : Locale) (parser : Parser) : List Str := parser.tokens.flatMap loc.words

end Parser

/-! ### The texts of a tree -/

namespace TidyNode

/-- The text of a node itself. -/
def ownText (info : TidyInfo) : List Str := if info.isText && info.hasText then [info.text] else []

mutual

/-- **The texts below a node** that are no script's and no style's. -/
def texts : TidyNode → List Str
  | .node _ children => childTexts children

/-- The texts of some nodes and below them. -/
def childTexts : List TidyNode → List Str
  | [] => []
  | child :: rest =>
    if child.info.isScript || child.info.isStyle then childTexts rest
    else ownText child.info ++ texts child ++ childTexts rest

end

end TidyNode

namespace Parser

variable {env : ParserEnv} {parser parser' : Parser}

/-- The parser has come to collect these texts, converted. -/
def Collects (env : ParserEnv) (parser parser' : Parser) (texts : List Str) : Prop :=
  ∃ tokens, texts.mapM (convert env) = some tokens ∧ parser'.tokens = parser.tokens ++ tokens

namespace Collects

theorem refl (same : parser'.tokens = parser.tokens) : Collects env parser parser' [] :=
  ⟨[], rfl, by rw [same, List.append_nil]⟩

theorem trans {middle : Parser} {texts more : List Str} (first : Collects env parser middle texts)
    (second : Collects env middle parser' more) : Collects env parser parser' (texts ++ more) := by
  obtain ⟨tokens, converted, held⟩ := first
  obtain ⟨rest, converted', held'⟩ := second
  refine ⟨tokens ++ rest, ?_, ?_⟩
  · rw [List.mapM_append, converted, converted']
    rfl
  · rw [held', held, List.append_assoc]

end Collects

/-- A link collects no text. -/
theorem collects_pushUrl {info : TidyInfo} (pushed : pushUrl env info parser = some parser') :
    Collects env parser parser' [] := by
  unfold pushUrl at pushed
  split at pushed
  · obtain ⟨url, -, rfl⟩ := Option.map_eq_some_iff.mp pushed
    exact .refl rfl
  · cases pushed
    exact .refl rfl

/-- A text node collects its text. -/
theorem collects_pushText {info : TidyInfo} (pushed : pushText env info parser = some parser') :
    Collects env parser parser' (TidyNode.ownText info) := by
  unfold pushText at pushed
  unfold TidyNode.ownText
  split at pushed
  · rename_i text
    obtain ⟨token, converted, rfl⟩ := Option.map_eq_some_iff.mp pushed
    rw [if_pos text]
    refine ⟨[token], ?_, rfl⟩
    rw [List.mapM_cons, converted]
    rfl
  · rename_i other
    cases pushed
    rw [if_neg other]
    exact .refl rfl

mutual

/-- **The walk below a node** collects its texts. -/
theorem collects_traverseTree : ∀ (tree : TidyNode) {parser parser' : Parser},
    traverseTree env tree parser = some parser' → Collects env parser parser' tree.texts
  | .node _ children, _, _, walked => by
    rw [traverseTree] at walked
    rw [TidyNode.texts]
    exact collects_traverseChildren children walked

/-- The walk over some nodes. -/
theorem collects_traverseChildren : ∀ (children : List TidyNode) {parser parser' : Parser},
    traverseChildren env children parser = some parser' →
      Collects env parser parser' (TidyNode.childTexts children)
  | [], _, _, walked => by
    rw [traverseChildren] at walked
    cases walked
    exact .refl rfl
  | child :: rest, parser, parser', walked => by
    rw [traverseChildren] at walked
    rw [TidyNode.childTexts]
    obtain ⟨linked, url, walked⟩ := Option.bind_eq_some_iff.mp walked
    have collected := collects_pushUrl url
    split at walked
    · rename_i hidden
      rw [if_pos hidden]
      exact collected.trans (collects_traverseChildren rest walked)
    · rename_i shown
      rw [if_neg shown]
      obtain ⟨read, text, walked⟩ := Option.bind_eq_some_iff.mp walked
      obtain ⟨below, inside, walked⟩ := Option.bind_eq_some_iff.mp walked
      exact ((collected.trans (collects_pushText text)).trans
        (collects_traverseTree child inside)).trans (collects_traverseChildren rest walked)

end

/-- The texts of a page. -/
def pageTexts (env : ParserEnv) (page : Str) : List Str :=
  if page = [] then [] else ((env.tidy page).map TidyNode.texts).getD []

/-- **The tokens of a page** are its converted texts. -/
theorem tokens_feedText {page : Str} (fed : feedText env page = some parser) :
    (pageTexts env page).mapM (convert env) = some parser.tokens := by
  unfold feedText at fed
  unfold pageTexts
  split at fed
  · rename_i empty
    cases fed
    rw [if_pos empty]
    rfl
  · rename_i filled
    obtain ⟨html, parsed, walked⟩ := Option.bind_eq_some_iff.mp fed
    obtain ⟨tokens, converted, held⟩ := collects_traverseTree html walked
    rw [if_neg filled, parsed, held]
    exact converted

end Parser

/-! ### The links of a tree -/

namespace TidyNode

/-- The link of a node itself. -/
def ownHref (info : TidyInfo) : List Str := if info.isA then info.href.toList else []

mutual

/-- **The links below a node** that are inside of no script and no style. -/
def hrefs : TidyNode → List Str
  | .node _ children => childHrefs children

/-- The links of some nodes and below them. -/
def childHrefs : List TidyNode → List Str
  | [] => []
  | child :: rest =>
    ownHref child.info ++
      (if child.info.isScript || child.info.isStyle then [] else hrefs child) ++ childHrefs rest

end

end TidyNode

namespace Parser

variable {env : ParserEnv} {parser parser' : Parser}

/-- `parser::text`: every token, followed by the joint. -/
def text (join : Str) (parser : Parser) : Str := parser.tokens.flatMap fun token => token ++ join

/-- The parser has come to collect these links, converted. -/
def Finds (env : ParserEnv) (parser parser' : Parser) (hrefs : List Str) : Prop :=
  ∃ urls, hrefs.mapM (convert env) = some urls ∧ parser'.urls = parser.urls ++ urls

namespace Finds

theorem refl (same : parser'.urls = parser.urls) : Finds env parser parser' [] :=
  ⟨[], rfl, by rw [same, List.append_nil]⟩

theorem trans {middle : Parser} {hrefs more : List Str} (first : Finds env parser middle hrefs)
    (second : Finds env middle parser' more) : Finds env parser parser' (hrefs ++ more) := by
  obtain ⟨urls, converted, held⟩ := first
  obtain ⟨rest, converted', held'⟩ := second
  refine ⟨urls ++ rest, ?_, ?_⟩
  · rw [List.mapM_append, converted, converted']
    rfl
  · rw [held', held, List.append_assoc]

end Finds

/-- A link is found. -/
theorem finds_pushUrl {info : TidyInfo} (pushed : pushUrl env info parser = some parser') :
    Finds env parser parser' (TidyNode.ownHref info) := by
  unfold pushUrl at pushed
  unfold TidyNode.ownHref
  split at pushed
  · rename_i href link target
    obtain ⟨url, converted, rfl⟩ := Option.map_eq_some_iff.mp pushed
    rw [link, if_pos rfl, target]
    refine ⟨[url], ?_, rfl⟩
    rw [Option.toList_some, List.mapM_cons, converted]
    rfl
  · rename_i other
    cases pushed
    cases link : info.isA with
    | false =>
      rw [if_neg (by decide)]
      exact .refl rfl
    | true =>
      cases target : info.href with
      | none => exact .refl rfl
      | some href => exact absurd target (other href link)

/-- A text node has no link. -/
theorem finds_pushText {info : TidyInfo} (pushed : pushText env info parser = some parser') :
    Finds env parser parser' [] := by
  unfold pushText at pushed
  split at pushed
  · obtain ⟨token, -, rfl⟩ := Option.map_eq_some_iff.mp pushed
    exact .refl rfl
  · cases pushed
    exact .refl rfl

mutual

/-- **The walk below a node** finds its links. -/
theorem finds_traverseTree : ∀ (tree : TidyNode) {parser parser' : Parser},
    traverseTree env tree parser = some parser' → Finds env parser parser' tree.hrefs
  | .node _ children, _, _, walked => by
    rw [traverseTree] at walked
    rw [TidyNode.hrefs]
    exact finds_traverseChildren children walked

/-- The walk over some nodes. -/
theorem finds_traverseChildren : ∀ (children : List TidyNode) {parser parser' : Parser},
    traverseChildren env children parser = some parser' →
      Finds env parser parser' (TidyNode.childHrefs children)
  | [], _, _, walked => by
    rw [traverseChildren] at walked
    cases walked
    exact .refl rfl
  | child :: rest, parser, parser', walked => by
    rw [traverseChildren] at walked
    rw [TidyNode.childHrefs]
    obtain ⟨linked, url, walked⟩ := Option.bind_eq_some_iff.mp walked
    have found := finds_pushUrl url
    split at walked
    · rename_i hidden
      rw [if_pos hidden, List.append_nil]
      exact found.trans (finds_traverseChildren rest walked)
    · rename_i shown
      rw [if_neg shown]
      obtain ⟨read, text, walked⟩ := Option.bind_eq_some_iff.mp walked
      obtain ⟨below, inside, walked⟩ := Option.bind_eq_some_iff.mp walked
      have behind := (finds_pushText text).trans (finds_traverseTree child inside)
      exact (found.trans behind).trans (finds_traverseChildren rest walked)

end

/-- The links of a page. -/
def pageHrefs (env : ParserEnv) (page : Str) : List Str :=
  if page = [] then [] else ((env.tidy page).map TidyNode.hrefs).getD []

/-- **The links of a page** are found in the order of the document, converted. -/
theorem urls_feedText {page : Str} (fed : feedText env page = some parser) :
    (pageHrefs env page).mapM (convert env) = some parser.urls := by
  unfold feedText at fed
  unfold pageHrefs
  split at fed
  · rename_i empty
    cases fed
    rw [if_pos empty]
    rfl
  · rename_i filled
    obtain ⟨html, parsed, walked⟩ := Option.bind_eq_some_iff.mp fed
    obtain ⟨urls, converted, held⟩ := finds_traverseTree html walked
    rw [if_neg filled, parsed, held]
    exact converted

end Parser

end Wookie
