/-
**What the URL filters decide.**

`process_reply` resolves every link of a page to an absolute URL, and asks the URL filters about the
link as it stands in the page. The domain filter resolves the link itself before it looks; the port
filter and the words filter look at what they are given.

* `submits_iff` — `process_reply` can submit exactly the resolved URLs of the links it follows.
* `createWordsFilter_iff` — the words filter lets a forbidden word pass that stands in the URL as
  its last character only.
* `filters_bind_iff` — every submitted URL satisfies every filter, is on an allowed port and has no
  forbidden word in it exactly where the filters judge the links that are followed as they judge
  where these lead, and no forbidden word is the last character only.
-/

import Mathlib.Data.List.Infix
import Wookie.Engine.System

namespace Wookie

open Library

variable {Url : Type}

/-! ### The filters of the library and of the feed pipeline -/

section Filters

variable (swarm : SwarmUrl Url)

/-- `create_domain_filter`: `none` is the error `"Invalid URL '%s': base is empty"`. -/
def createDomainFilter (url : Str) : Option (Response Url → Url → Bool) :=
  let baseHost := swarm.host (swarm.ofString url)
  if baseHost.isEmpty then none
  else some fun reply url => baseHost == swarm.host (swarm.resolved reply.url url)

/-- `create_port_filter`. -/
def createPortFilter (ports : List ℕ) : Response Url → Url → Bool := fun _ url =>
  match swarm.port url with
  | some port => ports.contains port
  | none => true

/-- `std::string::find`. -/
def findString (text word : Str) : Option ℕ :=
  text.tails.findIdx? fun rest => word.isPrefixOf rest

/-- `create_words_filter`: a word whose first occurrence is the last char does not count. -/
def createWordsFilter (forbiddenWords : List Str) : Response Url → Url → Bool := fun _ url =>
  let urlString := swarm.toString url
  forbiddenWords.all fun word =>
    match findString urlString word with
    | some pos => pos + 1 == urlString.length
    | none => true

end Filters

section Words

/-- `std::string::find` finds what is there. -/
theorem findString_eq_none {text word : Str} : findString text word = none ↔ ¬ word <:+: text := by
  rw [findString, List.findIdx?_eq_none_iff, List.infix_iff_prefix_suffix]
  constructor
  · rintro never ⟨rest, starts, ends⟩
    have missed := never rest ((List.mem_tails _ _).mpr ends)
    rw [List.isPrefixOf_iff_prefix.mpr starts] at missed
    cases missed
  · intro never rest member
    refine Bool.eq_false_iff.mpr fun starts => never ⟨rest, ?_, (List.mem_tails _ _).mp member⟩
    exact List.isPrefixOf_iff_prefix.mp starts

/-- What is found fits into the text. -/
theorem findString_bound {text word : Str} {pos : ℕ} (found : findString text word = some pos) :
    pos + word.length ≤ text.length := by
  obtain ⟨bound, starts, -⟩ := List.findIdx?_eq_some_iff_getElem.mp found
  have length := (List.isPrefixOf_iff_prefix.mp starts).length_le
  rw [List.getElem_tails, List.length_drop] at length
  rw [List.length_tails] at bound
  omega

/-- A word that stands in a text as its last character, and nowhere before. -/
def OnlyAtEnd (word text : Str) : Prop :=
  ∃ pos, findString text word = some pos ∧ pos + 1 = text.length

theorem OnlyAtEnd.infix {word text : Str} (only : OnlyAtEnd word text) : word <:+: text := by
  obtain ⟨pos, found, -⟩ := only
  by_contra absent
  rw [findString_eq_none.mpr absent] at found
  cases found

/-- Words of two characters or more never do. -/
theorem OnlyAtEnd.short {word text : Str} (only : OnlyAtEnd word text) : word.length ≤ 1 := by
  obtain ⟨pos, found, last⟩ := only
  have bound := findString_bound found
  omega

variable {swarm : SwarmUrl Url} {reply : Response Url} {url : Url}

/-- **What the words filter lets pass.** -/
theorem createWordsFilter_iff {words : List Str} :
    createWordsFilter swarm words reply url = true ↔
      ∀ word ∈ words, ¬ word <:+: swarm.toString url ∨ OnlyAtEnd word (swarm.toString url) := by
  rw [createWordsFilter, List.all_eq_true]
  refine forall₂_congr fun word _ => ?_
  rw [← findString_eq_none, OnlyAtEnd]
  cases findString (swarm.toString url) word with
  | none => exact iff_of_true rfl (.inl rfl)
  | some pos => simp

/-- What the port filter lets pass. -/
theorem createPortFilter_iff {ports : List ℕ} :
    createPortFilter swarm ports reply url = true ↔
      ∀ port, swarm.port url = some port → port ∈ ports := by
  rw [createPortFilter]
  cases swarm.port url with
  | none => exact iff_of_true rfl nofun
  | some port => simp

end Words

namespace EngineData

variable {e : EngineData Url} {reply : Response Url} {data : Str}

/-! ### What `process_reply` submits -/

theorem returns_callAll (functors : List ProcessFunctor) (type : DocumentType) :
    Program.Returns (callAll functors reply data type) () :=
  .forEach fun functor _ => EngineOp.returns_ask (.process functor reply data type) ()

theorem returns_inflightInsertNew (url : Url) (inserted : Bool) :
    Program.Returns (e.inflightInsertNew url) inserted :=
  have now : DnetTime := ⟨0, 0⟩
  (EngineOp.returns_ask .currentTime now).bind
    (EngineOp.returns_ask (.insertInflight (e.swarm.toString url) (Document.new now)) inserted)

/-- A round of the link loop ends when the URL is in flight. -/
theorem returns_followLink (href : Str) : Program.Returns (e.followLink reply data href) () := by
  unfold followLink
  split
  · exact .pure ()
  · split
    · exact (returns_inflightInsertNew _ false).bind (.pure ())
    · exact .pure ()

theorem returns_storeRedirected (ts : DnetTime) :
    ∃ more, Program.Returns (e.storeRedirected reply data ts) more := by
  unfold storeRedirected
  split
  · have first : ℕ := 0
    exact ⟨[first], (EngineOp.returns_ask (.writeDocument _) first).bind (.pure _)⟩
  · exact ⟨[], .pure _⟩

/-- A URL that is neither in flight nor in the page cache is submitted. -/
theorem occurs_feed_requestLink (requestUrl : Url) :
    Program.Occurs (.feed requestUrl none) (e.requestLink reply data requestUrl) := by
  refine Program.Occurs.bind_right (returns_inflightInsertNew requestUrl true) ?_
  refine Program.Occurs.bind_right
    (EngineOp.returns_ask (.readData (e.swarm.toString requestUrl)) none) ?_
  exact EngineOp.occurs_ask (.feed requestUrl none)

theorem occurs_feed_followLink {href : Str} (followed : e.Followed reply data href) :
    Program.Occurs (.feed (e.requestUrl reply href) none) (e.followLink reply data href) := by
  simp only [followLink, followed.kept, followed.ok, Bool.false_eq_true, if_false, if_true]
  exact occurs_feed_requestLink _

theorem occurs_feed_processAccepted {href : Str} (followed : e.Followed reply data href) :
    Program.Occurs (.feed (e.requestUrl reply href) none) (e.processAccepted reply data) := by
  simp only [processAccepted, followed.accepted, if_true]
  have before : Program.Returns (if reply.code ≠ notModified then
      callAll e.processors reply data .documentNew else .pure ()) () := by
    split
    · exact returns_callAll _ _
    · exact .pure ()
  refine Program.Occurs.bind_right before ?_
  exact Program.Occurs.forEach (fun other _ => returns_followLink other) followed.member
    (occurs_feed_followLink followed)

/-- The protocol of submitting only what satisfies `allowed`. -/
def submitting (allowed : Url → Prop) : Typestate (@EngineAnswer Url) Unit :=
  .stateless (fun | .feed url _ => allowed url | _ => True) fun _ _ => True

theorem submitting_neutral {allowed : Url → Prop} : Neutral (submitting allowed) data () where
  time := ⟨trivial, fun _ => rfl⟩
  write _ _ _ := ⟨trivial, fun _ => rfl⟩
  wait _ := ⟨trivial, fun _ => rfl⟩
  processing _ := ⟨trivial, fun _ => rfl⟩
  process _ _ _ := ⟨trivial, fun _ => rfl⟩

variable (e reply data) in
/-- `process_reply` can submit this URL for download. -/
def Submits (url : Url) : Prop :=
  ∃ doc, Program.Occurs (.feed url doc) (e.processReply reply data)

/-- **`process_reply` can submit exactly the resolved URLs of the links it follows.** -/
theorem submits_iff {url : Url} :
    e.Submits reply data url ↔
      ∃ href, e.Followed reply data href ∧ url = e.requestUrl reply href := by
  constructor
  · rintro ⟨doc, occurs⟩
    have follows : Follows (submitting fun url =>
        ∃ href, e.Followed reply data href ∧ url = e.requestUrl reply href) (· = ()) ()
        (e.processReply reply data) := by
      refine submitting_neutral.processReply fun href followed => ?_
      exact requestLink_follows submitting_neutral (fun _ => trivial) trivial ⟨href, followed, rfl⟩
        fun _ _ _ _ _ => ⟨trivial, href, followed, rfl⟩
    exact follows.of_occurs occurs
  · rintro ⟨href, followed, rfl⟩
    have start : DnetTime := ⟨0, 0⟩
    have first : ℕ := 0
    obtain ⟨more, redirected⟩ : ∃ more, Program.Returns (e.storeRedirected reply data start) more :=
      returns_storeRedirected start
    refine ⟨none, Program.Occurs.bind_right
      (EngineOp.returns_ask (.processing reply data) ()) ?_⟩
    refine Program.Occurs.bind_right (EngineOp.returns_ask .currentTime start) ?_
    refine Program.Occurs.bind_right (EngineOp.returns_ask (.writeDocument _) first) ?_
    refine Program.Occurs.bind_right redirected ?_
    exact (occurs_feed_processAccepted followed).bind_left _

/-! ### Filters and what is fetched -/

variable (e reply data) in
/-- **The URL filters bind what is fetched.** -/
structure FiltersBind : Prop where
  /-- Every URL that is submitted satisfies every filter. -/
  filters : ∀ url, e.Submits reply data url → ∀ filter ∈ e.urlFilters, filter reply url = true
  /-- With the port filter it is on an allowed port, or on the default one. -/
  ports : ∀ ports, createPortFilter e.swarm ports ∈ e.urlFilters →
    ∀ url, e.Submits reply data url → ∀ port, e.swarm.port url = some port → port ∈ ports
  /-- With the words filter no forbidden word is in it. -/
  words : ∀ words, createWordsFilter e.swarm words ∈ e.urlFilters →
    ∀ url, e.Submits reply data url → ∀ word ∈ words, ¬ word <:+: e.swarm.toString url

variable (e reply) in
/-- The filters say the same of a link as it stands in the page and of where it leads. -/
def JudgedAlike (href : Str) : Prop :=
  ∀ filter ∈ e.urlFilters,
    filter reply (e.swarm.ofString href) = filter reply (e.requestUrl reply href)

variable (e) in
/-- The URL ends in no forbidden word that stands nowhere before. -/
def NoneAtEnd (url : Url) : Prop :=
  ∀ words, createWordsFilter e.swarm words ∈ e.urlFilters →
    ∀ word ∈ words, ¬ OnlyAtEnd word (e.swarm.toString url)

theorem submits_requestUrl {href : Str} (followed : e.Followed reply data href) :
    e.Submits reply data (e.requestUrl reply href) :=
  submits_iff.mpr ⟨href, followed, rfl⟩

/-- The filters have accepted a link that is followed. -/
theorem Followed.satisfies {href : Str} (followed : e.Followed reply data href)
    (alike : e.JudgedAlike reply href) :
    ∀ filter ∈ e.urlFilters, filter reply (e.requestUrl reply href) = true :=
  fun filter member => alike filter member ▸ List.all_eq_true.mp followed.ok filter member

/-- What is submitted is where a followed link leads, and the filters have judged it. -/
theorem FiltersBind.of_alike
    (alike : ∀ href, e.Followed reply data href →
      e.JudgedAlike reply href ∧ e.NoneAtEnd (e.requestUrl reply href)) :
    e.FiltersBind reply data := by
  refine ⟨?_, ?_, ?_⟩
  · intro url submits
    obtain ⟨href, followed, rfl⟩ := submits_iff.mp submits
    exact followed.satisfies (alike href followed).1
  · intro ports member url submits port known
    obtain ⟨href, followed, rfl⟩ := submits_iff.mp submits
    have accepted := followed.satisfies (alike href followed).1 _ member
    exact createPortFilter_iff.mp accepted port known
  · intro words member url submits word forbidden
    obtain ⟨href, followed, rfl⟩ := submits_iff.mp submits
    have accepted := followed.satisfies (alike href followed).1 _ member
    rcases createWordsFilter_iff.mp accepted word forbidden with absent | only
    · exact absent
    · exact absurd only ((alike href followed).2 words member word forbidden)

/-- **They bind on pages whose links are absolute**: where resolving a link leaves it as it is, and
no forbidden word is the last character only. -/
theorem FiltersBind.of_absolute
    (absolute : ∀ href, e.Followed reply data href →
      e.requestUrl reply href = e.swarm.ofString href)
    (noneAtEnd : ∀ href, e.Followed reply data href → e.NoneAtEnd (e.swarm.ofString href)) :
    e.FiltersBind reply data := by
  refine .of_alike fun href followed => ?_
  rw [JudgedAlike, absolute href followed]
  exact ⟨fun _ _ => rfl, noneAtEnd href followed⟩

/-- **The filters bind exactly where they judge every link that is followed as they judge its
resolved form, and where no forbidden word is the last character only of a resolved URL.** -/
theorem filters_bind_iff (e : EngineData Url) (reply : Response Url) (data : Str) :
    e.FiltersBind reply data ↔
      ∀ href, e.Followed reply data href →
        e.JudgedAlike reply href ∧ e.NoneAtEnd (e.requestUrl reply href) := by
  constructor
  · intro bind href followed
    have submits := submits_requestUrl followed
    refine ⟨fun filter member => ?_, fun words member word forbidden only => ?_⟩
    · have written : filter reply (e.swarm.ofString href) = true :=
        List.all_eq_true.mp followed.ok filter member
      rw [written, bind.filters _ submits filter member]
    · exact bind.words words member _ submits word forbidden only.infix
  · exact .of_alike

/-- A crawler that keeps to port 80, and a page on port 81 that links to its neighbour. -/
def portCrawler : EngineData Str :=
  { PlainUrl.crawler with urlFilters := [createPortFilter PlainUrl.swarm [80]] }

def neighbour : Str := "/next".toList

def otherPort : Response Str :=
  ⟨"http://a:81/".toList, "http://a:81/".toList, 200, []⟩

/-- A crawler that keeps away from `x`, and a page that links to `http://a/x`. -/
def wordCrawler : EngineData Str :=
  { PlainUrl.crawler with urlFilters := [createWordsFilter PlainUrl.swarm [['x']]] }

def forbiddenLink : Str := "http://a/x".toList

def startPage : Response Str := ⟨"http://a/".toList, "http://a/".toList, 200, []⟩

/-- The relative link has no port, and passes; what is fetched is on port 81. The absolute link ends
in the forbidden word, and passes. -/
theorem filters_escaped :
    ¬ portCrawler.FiltersBind otherPort neighbour ∧
      ¬ wordCrawler.FiltersBind startPage forbiddenLink := by
  constructor
  · intro bind
    have followed : portCrawler.Followed otherPort neighbour neighbour :=
      ⟨rfl, by decide, by decide, by decide⟩
    have allowed := bind.ports [80] List.mem_cons_self _ (submits_requestUrl followed) 81 rfl
    revert allowed
    decide
  · intro bind
    have followed : wordCrawler.Followed startPage forbiddenLink forbiddenLink :=
      ⟨rfl, by decide, by decide, by decide⟩
    refine bind.words [['x']] List.mem_cons_self _ (submits_requestUrl followed) ['x']
      List.mem_cons_self ?_
    decide

end EngineData

end Wookie
