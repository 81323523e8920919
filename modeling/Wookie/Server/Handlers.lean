/-
**The answers to `/upload`, `/get` and `/search`.**

A request is served by a chain of callbacks, and each way through it should send one reply. What
rift's base classes do with a request before the callbacks of `server.cpp` is theirs: the base of
`on_get` answers a request itself or starts the read.

* `onRequest` — the three handlers; `replies` counts what is sent along a path through one.
* `Answerable` — no search has a `text`, and what a get has read is a packed document.
* `answered_once_iff` — **along every complete path exactly one reply is sent, exactly if the
  request is answerable so.**
* `search_unanswered` — a search with a `text`: the waiting `find` is called, and
  `on_search_finished` is bound nowhere.
-/

import Wookie.Search.Find
import Wookie.Server.Upload

namespace Wookie

open Library

/-! ### Questions of the handlers -/

/-- The questions of the three handlers. `waitReady` is the loop of the waiting constructor of
`find_result`, `ready` its flag once all callbacks have run. -/
inductive HttpOp
  | upload (o : UploadOp)
  | readData (key : Str)
  | findAllIndexes (names : List Str)
  | waitReady (ready : Bool)
  | sendReply (code : Status)

/-- The answers. A read ends with an error code or the bytes of the first entry, a search with the
entries and an error or none. The wait ends if the flag is set. -/
def HttpAnswer : HttpOp → Type
  | .upload o => UploadAnswer o
  | .readData _ => Except Int DataPointer
  | .findAllIndexes _ => List FindResult.Entry × Option FindResult.ErrorInfo
  | .waitReady ready => PLift (ready = true)
  | .sendReply _ => Unit

/-- The callbacks of a request. -/
abbrev HttpProgram := Program HttpAnswer Unit

/-- `send_reply`. -/
def sendReply (code : Status) : HttpProgram := .op (.sendReply code) fun _ => .pure ()

/-! ### `/get` -/

/-- What rift's `on_get` makes of a request: an answer of its own, or a read of the document. -/
inductive CheckedGet
  | replies (code : Status)
  | reads (key : Str)

/-- A `/get` request. -/
structure GetRequest where
  checked : CheckedGet
  ifModifiedSince : Option Int

/-- The conversion of `uint64_t` to `time_t`. -/
def timeT (tsec : Nat) : Int := (BitVec.ofNat 64 tsec).toInt

namespace Get

/-- `on_get::on_read_finished`. -/
def onReadFinished (req : GetRequest) : Except Int DataPointer → HttpProgram
  | .error code =>
    -- -ENOENT
    if code = -2 then sendReply 404 else sendReply 503
  | .ok file =>
    match unpackDocument file with
    | .error _ => .throw
    | .ok doc =>
      if req.ifModifiedSince.any fun modifiedSince => timeT doc.ts.tsec ≤ modifiedSince then
        sendReply 304
      else sendReply 200

/-- `on_get`. -/
def onRequest (req : GetRequest) : HttpProgram :=
  match req.checked with
  | .replies code => sendReply code
  | .reads key => .op (.readData key) (onReadFinished req)

end Get

/-! ### `/search` -/

namespace Search

/-- `operators::find` without a callback: the constructor of `find_result` that waits. -/
def find (loc : Locale) (ell : Elliptics) (text : Str) : HttpProgram :=
  match FindResult.find loc ell text with
  | .error _ => .throw
  | .ok (request, names) => .op (.findAllIndexes names) fun (answer : _ × _) =>
    let found := (FindResult.onResultReady request answer.1 answer.2 .new).1
    .op (.waitReady found.ready) fun _ =>
      if found.error.isSome then .throw else .pure ()

/-- `on_search::on_request`. -/
def onRequest (loc : Locale) (ell : Elliptics) : Option Str → HttpProgram
  | some text => find loc ell text
  | none => sendReply 400

/-- `on_search::on_search_finished`. -/
def onSearchFinished (err : Option FindResult.ErrorInfo) : HttpProgram :=
  if err.isSome then sendReply 503 else sendReply 200

end Search

/-! ### The server -/

/-- A request to one of the three handlers. -/
inductive HttpRequest
  | upload (req : UploadRequest)
  | get (req : GetRequest)
  | search (text : Option Str)

/-- The handler of a request. -/
def onRequest (loc : Locale) (ell : Elliptics) : HttpRequest → HttpProgram
  | .upload req => (Upload.checked loc req).embed .upload fun _ answer => answer
  | .get req => Get.onRequest req
  | .search text => Search.onRequest loc ell text

/-- The question is a reply. rift's `on_write_finished` sends one. -/
def HttpOp.isReply : HttpOp → Bool
  | .upload (.sendReply _) => true
  | .sendReply _ => true
  | _ => false

/-- The replies sent along a path. -/
def replies (steps : List (Σ o, HttpAnswer o)) : ℕ := steps.countP fun step => step.1.isReply

/-- The request is an upload, a get whose read bytes all unpack, or a search without a `text`. -/
def Answerable (steps : List (Σ o, HttpAnswer o)) : HttpRequest → Prop
  | .upload _ => True
  | .get _ => ∀ key file, ⟨.readData key, (.ok file : Except Int DataPointer)⟩ ∈ steps →
    ∃ doc, unpackDocument file = .ok doc
  | .search text => text = none

variable {loc : Locale} {ell : Elliptics} {steps : List (Σ o, HttpAnswer o)}

/-- The only path through `send_reply`. -/
theorem path_sendReply {code : Status} :
    Program.Path (sendReply code) steps ↔ steps = [⟨.sendReply code, ()⟩] := by
  have answered : Nonempty (HttpAnswer (.sendReply code)) := ⟨()⟩
  rw [sendReply, Program.path_op_of_nonempty]
  constructor
  · rintro ⟨answer, rest, path, rfl⟩
    rw [Program.path_pure.mp path]
    rfl
  · rintro rfl
    exact ⟨(), [], .pure (), rfl⟩

theorem replies_sendReply {code : Status} (path : Program.Path (sendReply code) steps) :
    replies steps = 1 := by
  rw [path_sendReply.mp path]
  rfl

/-! ### Uploads -/

/-- The replies of an upload's own questions. -/
def UploadOp.isReply (o : UploadOp) : Bool := (HttpOp.upload o).isReply

/-- One reply along a path through an upload. -/
def RepliesOnce (c : UploadProgram) : Prop :=
  ∀ own, Program.Path c own → (own.countP fun step => step.1.isReply) = 1

theorem UploadAnswer.nonempty (o : UploadOp) : Nonempty (UploadAnswer o) := by
  cases o with
  | writeData key data => exact ⟨(none : Option Int)⟩
  | setIndexes key indexes => exact ⟨(none : Option Int)⟩
  | sendReply code => exact ⟨()⟩

namespace RepliesOnce

theorem sendReply (code : Status) : RepliesOnce (Upload.sendReply code) := by
  intro own path
  rcases Program.path_op.mp path with ⟨never, -⟩ | ⟨answer, rest, later, rfl⟩
  · exact never.elim ()
  · rw [Program.path_pure.mp later]
    rfl

/-- A storage operation before the reply. -/
theorem op {o : UploadOp} {next : UploadAnswer o → UploadProgram} (quiet : o.isReply = false)
    (rest : ∀ answer, RepliesOnce (next answer)) : RepliesOnce (.op o next) := by
  intro own path
  have answered := UploadAnswer.nonempty o
  obtain ⟨answer, steps, later, rfl⟩ := Program.path_op_of_nonempty.mp path
  have skipped : (⟨o, answer⟩ :: steps : List (Σ o, UploadAnswer o)).countP
      (fun step => step.1.isReply) = steps.countP fun step => step.1.isReply := by
    simp [quiet]
  exact skipped.trans (rest answer steps later)

theorem onIndexUpdateFinished (error : Option Int) :
    RepliesOnce (Upload.onIndexUpdateFinished error) := by
  unfold Upload.onIndexUpdateFinished
  split
  · exact sendReply 503
  · exact sendReply 200

theorem onWriteFinishedUpdateIndex (loc : Locale) (doc : Document) (baseIndex : Str)
    (error : Option Int) :
    RepliesOnce (Upload.onWriteFinishedUpdateIndex loc doc baseIndex error) := by
  unfold Upload.onWriteFinishedUpdateIndex
  split
  · exact sendReply 503
  · by_cases none : (doc.prepareIndexes loc baseIndex).isEmpty = true
    · simp only [none, if_true]
      exact sendReply 200
    · simp only [none, Bool.false_eq_true, if_false]
      exact op rfl onIndexUpdateFinished

/-- **An upload is answered once**, whatever its request and its operations' outcomes. -/
theorem checked (loc : Locale) (req : UploadRequest) : RepliesOnce (Upload.checked loc req) := by
  unfold Upload.checked
  split
  · exact sendReply req.verdict
  · split
    · exact op rfl (onWriteFinishedUpdateIndex loc _ _)
    · exact sendReply 400

end RepliesOnce

theorem replies_upload {req : UploadRequest}
    (path : Program.Path (onRequest loc ell (.upload req)) steps) : replies steps = 1 := by
  obtain ⟨own, ownPath, same⟩ := Program.Path.of_embed (fun _ never => never) path
  have counted : ∀ steps : List (Σ o, HttpAnswer o),
      replies steps = (steps.map Sigma.fst).countP HttpOp.isReply := by
    intro steps
    rw [List.countP_map]
    rfl
  rw [counted, same, List.countP_map]
  exact RepliesOnce.checked loc req own ownPath

/-! ### Gets -/

/-- **What the read callback replies.** -/
theorem replies_onReadFinished {req : GetRequest} {result : Except Int DataPointer}
    (path : Program.Path (Get.onReadFinished req result) steps) :
    (replies steps = 1 ↔ ∀ file, result = .ok file → ∃ doc, unpackDocument file = .ok doc) ∧
      ∀ key file, ⟨.readData key, (.ok file : Except Int DataPointer)⟩ ∉ steps := by
  have replied : ∀ {code}, Program.Path (sendReply code) steps → replies steps = 1 ∧
      ∀ key file, ⟨.readData key, (.ok file : Except Int DataPointer)⟩ ∉ steps := by
    intro code path
    refine ⟨replies_sendReply path, fun key file listed => ?_⟩
    rw [path_sendReply.mp path] at listed
    cases List.mem_singleton.mp listed
  cases result with
  | error code =>
    have sent : replies steps = 1 ∧
        ∀ key file, ⟨.readData key, (.ok file : Except Int DataPointer)⟩ ∉ steps := by
      simp only [Get.onReadFinished] at path
      split at path
      · exact replied path
      · exact replied path
    exact ⟨iff_of_true sent.1 fun file same => (by cases same), sent.2⟩
  | ok file =>
    simp only [Get.onReadFinished] at path
    cases read : unpackDocument file with
    | error thrown =>
      simp only [read] at path
      rw [Program.path_throw.mp path]
      refine ⟨iff_of_false (by decide) fun unpacks => ?_, fun key file listed => by cases listed⟩
      obtain ⟨doc, found⟩ := unpacks file rfl
      cases read.symm.trans found
    | ok doc =>
      have sent : replies steps = 1 ∧
          ∀ key file, ⟨.readData key, (.ok file : Except Int DataPointer)⟩ ∉ steps := by
        simp only [read] at path
        split at path
        · exact replied path
        · exact replied path
      refine ⟨iff_of_true sent.1 fun other same => ?_, sent.2⟩
      cases same
      exact ⟨doc, read⟩

/-- **A get is answered once** exactly if what it read unpacks. -/
theorem replies_get {req : GetRequest} (path : Program.Path (onRequest loc ell (.get req)) steps) :
    replies steps = 1 ↔ Answerable steps (.get req) := by
  unfold onRequest Get.onRequest at path
  cases checked : req.checked with
  | replies code =>
    simp only [checked] at path
    refine iff_of_true (replies_sendReply path) fun key file listed => ?_
    rw [path_sendReply.mp path] at listed
    cases List.mem_singleton.mp listed
  | reads key =>
    simp only [checked] at path
    rcases Program.path_op.mp path with ⟨never, -⟩ | ⟨result, rest, later, rfl⟩
    · exact (never.false (.error 0 : Except Int DataPointer)).elim
    · obtain ⟨once, unread⟩ := replies_onReadFinished later
      have counted : replies (⟨.readData key, result⟩ :: rest) = replies rest := rfl
      rw [counted, once]
      constructor
      · intro unpacks other file listed
        rcases List.mem_cons.mp listed with same | listed
        · cases same
          exact unpacks file rfl
        · exact absurd listed (unread other file)
      · rintro answerable file rfl
        exact answerable key file List.mem_cons_self

/-! ### Searches -/

/-- **A search with a text sends nothing.** -/
theorem replies_find {text : Str} (path : Program.Path (Search.find loc ell text) steps) :
    replies steps = 0 := by
  unfold Search.find at path
  cases found : FindResult.find loc ell text with
  | error thrown =>
    simp only [found] at path
    rw [Program.path_throw.mp path]
    rfl
  | ok sent =>
    obtain ⟨request, names⟩ := sent
    simp only [found] at path
    rcases Program.path_op.mp path with ⟨-, rfl⟩ | ⟨answer, rest, waits, rfl⟩
    · rfl
    · rcases Program.path_op.mp waits with ⟨-, rfl⟩ | ⟨ready, later, ends, rfl⟩
      · rfl
      · -- the constructor has returned, or has thrown the error
        split at ends
        · rw [Program.path_throw.mp ends]
          rfl
        · rw [Program.path_pure.mp ends]
          rfl

/-- **A search is answered once** exactly if it has no text. -/
theorem replies_search {text : Option Str}
    (path : Program.Path (onRequest loc ell (.search text)) steps) :
    replies steps = 1 ↔ text = none := by
  cases text with
  | none => exact iff_of_true (replies_sendReply path) rfl
  | some text =>
    have found : Program.Path (Search.find loc ell text) steps := path
    have silent := replies_find found
    refine iff_of_false ?_ ?_
    · rw [silent]
      decide
    · rintro ⟨⟩

/-- `on_search_finished` would send one reply. -/
theorem replies_onSearchFinished {err : Option FindResult.ErrorInfo}
    (path : Program.Path (Search.onSearchFinished err) steps) : replies steps = 1 := by
  unfold Search.onSearchFinished at path
  split at path
  · exact replies_sendReply path
  · exact replies_sendReply path

/-- **Every complete path through a handler sends exactly one reply**, exactly if the request is
answerable so. -/
theorem answered_once_iff (loc : Locale) (ell : Elliptics) (request : HttpRequest)
    (path : Program.Path (onRequest loc ell request) steps) :
    replies steps = 1 ↔ Answerable steps request := by
  cases request with
  | upload req => exact iff_of_true (replies_upload path) trivial
  | get req => exact replies_get path
  | search text => exact replies_search path

/-- A get of the document `x` under the name `n`. -/
def readSteps : List (Σ o, HttpAnswer o) :=
  [⟨.readData ['n'], (.ok (packDocument ⟨⟨1, 0⟩, ['n'], ['x']⟩) : Except Int DataPointer)⟩,
    ⟨.sendReply 200, ()⟩]

theorem path_readSteps :
    Program.Path (onRequest .ascii .plain (.get ⟨.reads ['n'], none⟩)) readSteps := by
  have replied : Program.Path (Get.onReadFinished ⟨.reads ['n'], none⟩
      (.ok (packDocument ⟨⟨1, 0⟩, ['n'], ['x']⟩))) [⟨.sendReply 200, ()⟩] := by
    simp only [Get.onReadFinished, unpackDocument_packDocument, Option.any_none,
      Bool.false_eq_true, if_false]
    exact path_sendReply.mpr rfl
  exact Program.Path.op _ _ _ _ replied

theorem answered_once_iff_read :
    replies readSteps = 1 ↔ Answerable readSteps (.get ⟨.reads ['n'], none⟩) :=
  answered_once_iff .ascii .plain (.get ⟨.reads ['n'], none⟩) path_readSteps

/-- The only steps of a search that finds nothing. -/
def searchSteps : List (Σ o, HttpAnswer o) :=
  [⟨.findAllIndexes [['a']], (([], none) : List FindResult.Entry × Option FindResult.ErrorInfo)⟩,
    ⟨.waitReady true, (⟨rfl⟩ : PLift (true = true))⟩]

/-- **A search for `a`** is never answered: nothing is found, the wait ends, and that was all. -/
theorem search_unanswered :
    Program.Path (onRequest .ascii .plain (.search (some ['a']))) searchSteps ∧
      replies searchSteps ≠ 1 := by
  refine ⟨?_, by decide⟩
  exact Program.Path.op _ _ _ _ (Program.Path.op _ _ _ _ (.pure ()))

end Wookie
