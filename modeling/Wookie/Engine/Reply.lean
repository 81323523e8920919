/-
**The crawler's reply handling: `engine_data` of `lib/engine.cpp`.**

A downloader thread that got a reply runs `process_url`, which may run `process_reply`. Both are
written here as programs over `EngineOp`, the questions the code puts to what it shares with other
threads: the clock, the in-flight map behind `inflight_lock`, the page cache, the downloader, and
the processors the application registered. Everything else (`parsers`, `filters`, `url_filters`)
is computed from the reply and its data.

`swarm::url` and the reply are outside the repository: `SwarmUrl` is what the code uses of a URL.
-/

import Wookie.Library.Pool
import Wookie.Record

namespace Wookie

open Library

/-- What the crawler uses of `swarm::url`. -/
structure SwarmUrl (Url : Type) where
  /-- `swarm::url(const std::string &)`. -/
  ofString : Str → Url
  toString : Url → Str
  isValid : Url → Bool
  /-- `base.resolved(relative)`. -/
  resolved : Url → Url → Url
  scheme : Url → Str
  host : Url → Str
  port : Url → Option Nat

/-- `swarm::url_fetcher::response`. -/
structure Response (Url : Type) where
  /-- `reply.request().url()`. -/
  requestUrl : Url
  /-- `reply.url()`: where the redirects led. -/
  url : Url
  code : Nat
  headers : List (Str × Str)

/-- `response::not_modified`. -/
def notModified : Nat := 304

/-- `enum document_type`. -/
inductive DocumentType
  | documentCache
  | documentNew
  | documentUpdate
  deriving DecidableEq

/-- A registered `process_functor`, by its place in the list it was added to. -/
abbrev ProcessFunctor := Nat

variable {Url : Type}

/-- `class engine_data`: what is fixed while the engine runs. -/
structure EngineData (Url : Type) where
  swarm : SwarmUrl Url
  parsers : List (Response Url → Str → List Str)
  filters : List (Response Url → Str → Bool)
  urlFilters : List (Response Url → Url → Bool)
  processors : List ProcessFunctor
  fallbackProcessors : List ProcessFunctor
  generationTime : DnetTime

/-- The questions a downloader thread asks. -/
inductive EngineOp (Url : Type)
  /-- `dnet_current_time`. -/
  | currentTime
  /-- `inflight.insert(std::make_pair(url_string, doc)).second`, under the lock. -/
  | insertInflight (urlString : Str) (doc : Document)
  /-- The look-up and erasure of `inflight_erase`, under the lock. -/
  | eraseInflight (urlString : Str)
  /-- `storage->write_document(d)`: the answer is the asynchronous result. -/
  | writeDocument (d : Document)
  /-- `r.wait()` on an asynchronous result. -/
  | wait (result : Nat)
  /-- `storage->read_data(key)`, waited for. -/
  | readData (key : Str)
  /-- `downloader->feed`, with the document its `if-modified-since` header is taken from. -/
  | feed (url : Url) (doc : Option Document)
  /-- The line `process_reply` prints when it is entered. -/
  | processing (reply : Response Url) (data : Str)
  /-- A call of a registered functor. -/
  | process (functor : ProcessFunctor) (reply : Response Url) (data : Str) (type : DocumentType)

/-- What comes back. A read answers `none` when it ends with an error. -/
def EngineAnswer : EngineOp Url → Type
  | .currentTime => DnetTime
  | .insertInflight _ _ => Bool
  | .eraseInflight _ => Document
  | .writeDocument _ => Nat
  | .wait _ => Unit
  | .readData _ => Option DataPointer
  | .feed _ _ => Unit
  | .processing _ _ => Unit
  | .process _ _ _ _ => Unit

/-- A stretch of a downloader thread. -/
abbrev EngineProgram (Url α : Type) := Program (@EngineAnswer Url) α

/-- One question. -/
def EngineOp.ask (o : EngineOp Url) : EngineProgram Url (EngineAnswer o) := Program.ask o

theorem EngineOp.occurs_ask (o : EngineOp Url) : Program.Occurs o o.ask := Program.occurs_ask o

theorem EngineOp.returns_ask (o : EngineOp Url) (answer : EngineAnswer o) :
    Program.Returns o.ask answer := Program.returns_ask o answer

namespace EngineData

variable (e : EngineData Url)

/-- `engine_data::download`. -/
def download (url : Url) : EngineProgram Url Unit := EngineOp.ask (.feed url none)

/-- `inflight_insert(url, doc)`. -/
def inflightInsert (url : Url) (doc : Document) : EngineProgram Url Bool :=
  EngineOp.ask (.insertInflight (e.swarm.toString url) doc)

/-- `inflight_insert(url)`: the document is a fresh `document()`. -/
def inflightInsertNew (url : Url) : EngineProgram Url Bool :=
  (EngineOp.ask .currentTime).bind fun now => e.inflightInsert url (Document.new now)

/-- `inflight_erase`. -/
def inflightErase (url : Url) : EngineProgram Url Document :=
  EngineOp.ask (.eraseInflight (e.swarm.toString url))

/-- `found_in_page_cache`: the outcome of the insertion is not looked at. -/
def foundInPageCache (url : Url) (doc : Document) : EngineProgram Url Unit :=
  (e.inflightInsert url doc).bind fun _ => EngineOp.ask (.feed url (some doc))

/-- `store_document`. -/
def storeDocument (url : Url) (content : Str) (ts : DnetTime) : EngineProgram Url Nat :=
  EngineOp.ask (.writeDocument ⟨ts, e.swarm.toString url, content⟩)

/-- Call every functor of a list. -/
def callAll (functors : List ProcessFunctor) (reply : Response Url) (data : Str)
    (type : DocumentType) : EngineProgram Url Unit :=
  Program.forEach functors fun functor => EngineOp.ask (.process functor reply data type)

/-- The loop over `filters`. -/
def acceptedByFilters (reply : Response Url) (data : Str) : Bool :=
  e.filters.all fun filter => filter reply data

/-- The loop over `url_filters`; the link is handed over as it stands in the page. -/
def urlOk (reply : Response Url) (link : Str) : Bool :=
  e.urlFilters.all fun filter => filter reply (e.swarm.ofString link)

/-- What all parsers find, sorted, each link once. -/
def links (reply : Response Url) (data : Str) : List Str :=
  sortUnique (e.parsers.flatMap fun parser => parser reply data)

/-- The absolute URL of a link. -/
def requestUrl (reply : Response Url) (link : Str) : Url :=
  e.swarm.resolved reply.url (e.swarm.ofString link)

/-- The `continue`s of the link loop, before the filters. -/
def skipped (reply : Response Url) (link : Str) : Bool :=
  let requestUrl := e.requestUrl reply link
  !e.swarm.isValid (e.swarm.ofString link) ||
  !e.swarm.isValid requestUrl ||
  (e.swarm.scheme requestUrl != "https".toList && e.swarm.scheme requestUrl != "http".toList) ||
  ((e.swarm.host requestUrl).isEmpty ||
    e.swarm.toString requestUrl == e.swarm.toString reply.url)

/-- The URL was found in the page cache. A document stored before this generation started is fetched
again, and the processors see the page that links to it once more. -/
def readCached (reply : Response Url) (data : Str) (requestUrl : Url) (doc : Document) :
    EngineProgram Url Unit :=
  -- document was stored before we started this update generation, process it again
  if doc.ts.before e.generationTime then
    (e.foundInPageCache requestUrl doc).bind fun _ =>
      if reply.code ≠ notModified then callAll e.processors reply data .documentCache
      else .pure ()
  else .pure ()

/-- The outcome of the page-cache read. `unpack_document` throws on a file it cannot read. -/
def readFinished (reply : Response Url) (data : Str) (requestUrl : Url) :
    Option DataPointer → EngineProgram Url Unit
  | none => download requestUrl
  | some file =>
    match unpackDocument file with
    | .error _ => .throw
    | .ok doc => e.readCached reply data requestUrl doc

/-- What the link loop does with a URL that passed the filters: nothing if it is in flight. -/
def requestLink (reply : Response Url) (data : Str) (requestUrl : Url) : EngineProgram Url Unit :=
  (e.inflightInsertNew requestUrl).bind fun inserted =>
    if inserted then
      (EngineOp.ask (.readData (e.swarm.toString requestUrl))).bind
        (e.readFinished reply data requestUrl)
    else .pure ()

/-- One round of the link loop. -/
def followLink (reply : Response Url) (data : Str) (link : Str) : EngineProgram Url Unit :=
  if e.skipped reply link then .pure ()
  else if e.urlOk reply link then e.requestLink reply data (e.requestUrl reply link)
  else .pure ()

/-- The original URL too is stored when a redirect led elsewhere. -/
def storeRedirected (reply : Response Url) (data : Str) (ts : DnetTime) :
    EngineProgram Url (List Nat) :=
  if e.swarm.toString reply.url ≠ e.swarm.toString reply.requestUrl then
    (e.storeDocument reply.requestUrl data ts).bind fun result => .pure [result]
  else .pure []

/-- What `process_reply` does between the writes and the final wait. -/
def processAccepted (reply : Response Url) (data : Str) : EngineProgram Url Unit :=
  if e.acceptedByFilters reply data then
    (if reply.code ≠ notModified then callAll e.processors reply data .documentNew
      else .pure ()).bind fun _ =>
    Program.forEach (e.links reply data) (e.followLink reply data)
  else callAll e.fallbackProcessors reply data .documentNew

/-- `process_reply`. -/
def processReply (reply : Response Url) (data : Str) : EngineProgram Url Unit :=
  (EngineOp.ask (.processing reply data)).bind fun _ =>
  (EngineOp.ask .currentTime).bind fun ts =>
  (e.storeDocument reply.url data ts).bind fun result =>
  (e.storeRedirected reply data ts).bind fun more =>
  (e.processAccepted reply data).bind fun _ =>
  Program.forEach (result :: more) fun result => EngineOp.ask (.wait result)

/-- `process_url`. -/
def processUrl (reply : Response Url) (data : Str) (error : Bool) : EngineProgram Url Unit :=
  (e.inflightErase reply.requestUrl).bind fun oldDoc =>
    if error then .pure ()
    else if reply.code ≠ notModified then e.processReply reply data
    else e.processReply reply oldDoc.data

/-- **The outcome of a page-cache read leads to a request**: an error, or a copy of an earlier
generation. -/
def requestsAfter : Option DataPointer → Bool
  | none => true
  | some file =>
    match unpackDocument file with
    | .error _ => false
    | .ok doc => doc.ts.before e.generationTime

/-- The link loop requests this link. -/
structure Followed (reply : Response Url) (data : Str) (href : Str) : Prop where
  accepted : e.acceptedByFilters reply data = true
  member : href ∈ e.links reply data
  kept : e.skipped reply href = false
  ok : e.urlOk reply href = true

/-! ### The branches of the link loop -/

variable {e} {reply : Response Url} {data : Str} {requestUrl : Url} {file : DataPointer}
  {doc : Document}

theorem readFinished_error {error : ConvertError}
    (unreadable : unpackDocument file = .error error) :
    e.readFinished reply data requestUrl (some file) = .throw := by
  simp only [readFinished, unreadable]

/-- A stale document: the second insertion, and the conditional request. -/
theorem readFinished_stale (read : unpackDocument file = .ok doc)
    (stale : doc.ts.before e.generationTime = true) :
    e.readFinished reply data requestUrl (some file) =
      .op (.insertInflight (e.swarm.toString requestUrl) doc) fun _ =>
        .op (.feed requestUrl (some doc)) fun _ =>
          if reply.code ≠ notModified then callAll e.processors reply data .documentCache
          else .pure () := by
  simp only [readFinished, read, readCached, stale, if_true]
  rfl

theorem readFinished_fresh (read : unpackDocument file = .ok doc)
    (fresh : doc.ts.before e.generationTime = false) :
    e.readFinished reply data requestUrl (some file) = .pure () := by
  simp only [readFinished, read, readCached, fresh, Bool.false_eq_true, if_false]

theorem requestsAfter_stale (read : unpackDocument file = .ok doc)
    (stale : doc.ts.before e.generationTime = true) :
    e.requestsAfter (some file) = true := by
  simp only [requestsAfter, read, stale]

theorem requestsAfter_fresh (read : unpackDocument file = .ok doc)
    (fresh : doc.ts.before e.generationTime = false) :
    e.requestsAfter (some file) = false := by
  simp only [requestsAfter, read, fresh]

theorem requestsAfter_error {error : ConvertError}
    (unreadable : unpackDocument file = .error error) :
    e.requestsAfter (some file) = false := by
  simp only [requestsAfter, unreadable]

/-- **The three outcomes of the page-cache read.** -/
theorem read_cases (e : EngineData Url) (file : DataPointer) :
    (∃ error, unpackDocument file = .error error) ∨
    (∃ doc, unpackDocument file = .ok doc ∧ doc.ts.before e.generationTime = true) ∨
    (∃ doc, unpackDocument file = .ok doc ∧ doc.ts.before e.generationTime = false) := by
  cases unpackDocument file with
  | error error => exact Or.inl ⟨error, rfl⟩
  | ok doc =>
    cases age : doc.ts.before e.generationTime with
    | true => exact Or.inr (Or.inl ⟨doc, rfl, age⟩)
    | false => exact Or.inr (Or.inr ⟨doc, rfl, age⟩)

/-! ### Protocols that `process_reply` keeps to -/

section Follows

variable {Φ : Type} {T : Typestate (@EngineAnswer Url) Φ} {thrown : Φ → Prop} {φ : Φ}

/-- A protocol that is not about the clock, the page-cache writes and the processors: they leave the
phase alone. The content of the page is `data`; it is written with a time the clock gave. -/
structure Neutral (T : Typestate (@EngineAnswer Url) Φ) (data : Str) (φ : Φ) : Prop where
  time : T.may φ .currentTime ∧ ∀ now, T.after φ .currentTime now = φ
  write : ∀ now, T.expects φ .currentTime now → ∀ key,
    T.may φ (.writeDocument ⟨now, key, data⟩) ∧
      ∀ result, T.after φ (.writeDocument ⟨now, key, data⟩) result = φ
  wait : ∀ result, T.may φ (.wait result) ∧ ∀ done, T.after φ (.wait result) done = φ
  processing : ∀ reply, T.may φ (.processing reply data) ∧
    ∀ done, T.after φ (.processing reply data) done = φ
  process : ∀ functor reply type, T.may φ (.process functor reply data type) ∧
    ∀ done, T.after φ (.process functor reply data type) done = φ

theorem Neutral.adheres_callAll (neutral : Neutral T data φ) (functors : List ProcessFunctor)
    (reply : Response Url) (type : DocumentType) :
    Adheres T thrown (· = φ) φ (EngineData.callAll functors reply data type) := by
  refine Adheres.forEach (fun functor _ phase same => ?_) rfl
  subst same
  have step := neutral.process functor reply type
  exact ⟨step.1, fun done _ => step.2 done⟩

/-- The processors are called unless the reply is a `304`. -/
theorem Neutral.adheres_callModified (neutral : Neutral T data φ) (reply : Response Url)
    (type : DocumentType) :
    Adheres T thrown (· = φ) φ
      (if reply.code ≠ notModified then EngineData.callAll e.processors reply data type
        else .pure ()) := by
  split
  · exact neutral.adheres_callAll _ _ _
  · exact rfl

theorem Neutral.adheres_processAccepted (neutral : Neutral T data φ)
    (link : ∀ href, e.Followed reply data href →
      Adheres T thrown (· = φ) φ (e.requestLink reply data (e.requestUrl reply href))) :
    Adheres T thrown (· = φ) φ (e.processAccepted reply data) := by
  unfold EngineData.processAccepted
  split
  · rename_i accepted
    refine (neutral.adheres_callModified reply _).bind fun _ phase same =>
      Adheres.forEach (fun href member phase same => ?_) same
    subst same
    unfold followLink
    split
    · exact rfl
    · rename_i kept
      split
      · rename_i ok
        exact link href ⟨accepted, member, by simpa using kept, ok⟩
      · exact rfl
  · exact neutral.adheres_callAll _ _ _

theorem Neutral.adheres_storeRedirected (neutral : Neutral T data φ) {ts : DnetTime}
    (clock : T.expects φ .currentTime ts) :
    Adheres T thrown (· = φ) φ (e.storeRedirected reply data ts) := by
  unfold EngineData.storeRedirected
  split
  · have step := neutral.write ts clock (e.swarm.toString reply.requestUrl)
    exact ⟨step.1, fun result _ => step.2 result⟩
  · exact rfl

/-- **`process_reply` adheres to a protocol that its link requests adhere to.** -/
theorem Neutral.adheres_processReply (neutral : Neutral T data φ)
    (link : ∀ href, e.Followed reply data href →
      Adheres T thrown (· = φ) φ (e.requestLink reply data (e.requestUrl reply href))) :
    Adheres T thrown (· = φ) φ (e.processReply reply data) := by
  refine ⟨(neutral.processing reply).1, fun entered _ => ?_⟩
  rw [(neutral.processing reply).2 entered]
  refine ⟨neutral.time.1, fun ts clock => ?_⟩
  rw [neutral.time.2 ts]
  have written := neutral.write ts clock (e.swarm.toString reply.url)
  refine ⟨written.1, fun result _ => ?_⟩
  rw [written.2 result]
  refine (neutral.adheres_storeRedirected clock).bind fun more phase same => ?_
  subst same
  refine (neutral.adheres_processAccepted link).bind fun _ phase same => ?_
  subst same
  refine Adheres.forEach (fun result _ phase same => ?_) rfl
  subst same
  exact ⟨(neutral.wait result).1, fun done _ => (neutral.wait result).2 done⟩

theorem Neutral.callModified (neutral : Neutral T data φ) (reply : Response Url)
    (type : DocumentType) :
    Follows T (· = φ) φ
      (if reply.code ≠ notModified then EngineData.callAll e.processors reply data type
        else .pure ()) :=
  adheres_iff_follows.mp (neutral.adheres_callModified reply type)

/-- **`process_reply` keeps to a protocol that its link requests keep to.** -/
theorem Neutral.processReply (neutral : Neutral T data φ)
    (link : ∀ href, e.Followed reply data href →
      Follows T (· = φ) φ (e.requestLink reply data (e.requestUrl reply href))) :
    Follows T (· = φ) φ (e.processReply reply data) :=
  adheres_iff_follows.mp (neutral.adheres_processReply fun href followed =>
    adheres_iff_follows.mpr (link href followed))

/-- **The link requests of a protocol without phases.** What a link request asks for besides the
clock: the fresh entry, the read, and the submission of what the read returned. -/
theorem requestLink_follows {T : Typestate (@EngineAnswer Url) Unit} {requestUrl : Url}
    (neutral : Neutral T data ())
    (insert : ∀ now, T.may () (.insertInflight (e.swarm.toString requestUrl) (Document.new now)))
    (read : T.may () (.readData (e.swarm.toString requestUrl)))
    (missing : T.may () (.feed requestUrl none))
    (stale : ∀ file doc, T.expects () (.readData (e.swarm.toString requestUrl)) (some file) →
      unpackDocument file = .ok doc → doc.ts.before e.generationTime = true →
      T.may () (.insertInflight (e.swarm.toString requestUrl) doc) ∧
        T.may () (.feed requestUrl (some doc))) :
    Follows T (· = ()) () (e.requestLink reply data requestUrl) := by
  refine ⟨neutral.time.1, fun now _ => ⟨insert now, fun inserted _ => ?_⟩⟩
  cases inserted with
  | false => rfl
  | true =>
    refine ⟨read, fun answer expected => ?_⟩
    show Follows T (· = ()) () (e.readFinished reply data requestUrl answer)
    cases answer with
    | none => exact ⟨missing, fun _ _ => rfl⟩
    | some file =>
      rcases e.read_cases file with ⟨_, unreadable⟩ | ⟨doc, unpacked, old⟩ | ⟨doc, unpacked, fresh⟩
      · rw [readFinished_error unreadable]
        trivial
      · rw [readFinished_stale unpacked old]
        obtain ⟨again, submit⟩ := stale file doc expected unpacked old
        exact ⟨again, fun _ _ => ⟨submit, fun _ _ => neutral.callModified reply _⟩⟩
      · rw [readFinished_fresh unpacked fresh]
        rfl

end Follows

end EngineData

end Wookie
