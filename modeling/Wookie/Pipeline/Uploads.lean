/-
**Documents uploaded over HTTP: `update_handler` of `first_processor.cpp`.**

A page posted to `/first_processor/update?url=…` is pushed to the queue behind `first_processor`.
The client is answered when the push was reported, or at once if the request names no URL.

* `FirstProcessor.onRequest` — a handler as a program over `UpdateOp`.
* `FirstProcessor.step` — requests come, handlers go on, pushes are stored and reported, and the
  pipeline takes its steps.
* `updateState` — the protocol of a handler: one status code, due once its push was reported.
* `Answering` — what handlers, messages and the pipeline have to do with each other; in every state
  of every run.
* `uploads_answered` — **a client is answered at most once; a page answered with `200` is finished
  or stands in a queue, with its URL and body; and nothing but uploads stands there.**
-/

import Wookie.Pipeline.Contents

namespace Wookie

open Library

/-! ### The handler -/

/-- The messages of an `update_handler`. -/
inductive UpdateOp
  /-- `push_internal`: the answer is the place of the message. -/
  | push (url : Str) (info : MetaInfo)
  /-- The callback of a push, called with whether it succeeded. -/
  | reported (message : ℕ)
  /-- `response()->write_headers`. -/
  | writeHeaders (code : ℕ) (headers : List (Str × Str))
  /-- `response()->close`. -/
  | close

/-- What comes back. -/
def UpdateAnswer : UpdateOp → Type
  | .push _ _ => ℕ
  | .reported _ => Bool
  | _ => Unit

/-- An `update_handler` at work. -/
abbrev UpdateProgram (α : Type) := Program UpdateAnswer α

/-- One message. -/
def UpdateOp.ask (o : UpdateOp) : UpdateProgram (UpdateAnswer o) := Program.ask o

/-- A reply without a body. -/
def respond (code : ℕ) : UpdateProgram Unit :=
  (UpdateOp.ask (.writeHeaders code [("Content-Length".toList, "0".toList)])).bind fun _ =>
  UpdateOp.ask .close

/-- `connect` on the push of an upload: whether it succeeded. -/
def awaitUpload (message : ℕ) : UpdateProgram Bool := UpdateOp.ask (.reported message)

/-- The status code after the report of a push. -/
def reportCode (ok : Bool) : ℕ := if ok then 200 else 505

/-- `meta_info_pipeline_t::push`, the one with a callback. -/
def pushThen (url : Str) (info : MetaInfo) (method : Bool → UpdateProgram Unit) :
    UpdateProgram Unit :=
  (UpdateOp.ask (.push url info)).bind fun message =>
  (awaitUpload message).bind fun ok => method ok

/-- `first_processor`, and the applications behind it. -/
structure FirstProcessor where
  pipeline : Pipeline
  /-- `original_url.query().item_value("url")`, of the URI of a request. -/
  itemValue : Str → Option Str

/-- `update_handler::on_request`. -/
def FirstProcessor.onRequest (f : FirstProcessor) (uri body : Str) : UpdateProgram Unit :=
  match f.itemValue uri with
  | none => respond 400
  | some url => pushThen url (.fresh url body) fun ok => respond (reportCode ok)

/-! ### The system -/

/-- An HTTP request. -/
structure UpdateRequest where
  uri : Str
  body : Str

/-- The push of an upload. -/
structure UpdateMessage where
  info : MetaInfo
  stored : Bool
  reply : Option Bool

/-- The pipeline, and the handlers' requests, messages and replies. -/
structure UpdateState where
  pipeline : Pipeline.Running
  /-- The request of a handler is at its place. -/
  requests : List UpdateRequest
  messages : List UpdateMessage
  /-- The documents stored in the queue behind `first_processor`: the number of a document is its
  place. -/
  documents : List MetaInfo
  /-- The status codes, with the handlers that wrote them, newest first. -/
  responses : List (ℕ × ℕ)
  closed : List ℕ

/-- The status codes that a handler wrote. -/
def UpdateState.codes (s : UpdateState) (i : ℕ) : List ℕ :=
  s.responses.filterMap fun response => if response.1 = i then some response.2 else none

namespace FirstProcessor

variable (f : FirstProcessor)

/-- The answer to handler `i`, and the state after it. -/
def perform (i : ℕ) : (o : UpdateOp) → UpdateState → Option (UpdateAnswer o × UpdateState)
  | .push _ info, s =>
    some (s.messages.length, { s with messages := s.messages ++ [⟨info, false, none⟩] })
  | .reported n, s => s.messages[n]?.bind fun message => message.reply.map fun ok => (ok, s)
  | .writeHeaders code _, s => some ((), { s with responses := (i, code) :: s.responses })
  | .close, s => some ((), { s with closed := i :: s.closed })

/-- The handlers while they run. -/
abbrev Serving := Pool UpdateAnswer UpdateState

/-- An event of the system. -/
inductive Event
  | request (request : UpdateRequest)
  | handler (i : ℕ)
  | store (message : ℕ)
  | reply (message : ℕ) (ok : Bool)
  | pipeline (action : Pipeline.Action)

/-- A handler is started. -/
def start (request : UpdateRequest) (pool : Serving) : Serving :=
  Pool.spawn
    { pool with shared := { pool.shared with requests := pool.shared.requests ++ [request] } }
    (f.onRequest request.uri request.body)

/-- A push reaches the queue behind `first_processor`. -/
def store (n : ℕ) (message : UpdateMessage) (s : UpdateState) : UpdateState :=
  { s with
    pipeline := Pipeline.accept message.info s.pipeline
    messages := s.messages.set n { message with stored := true }
    documents := s.documents ++ [message.info] }

/-- The reply to a push arrives. -/
def reply (n : ℕ) (message : UpdateMessage) (ok : Bool) (s : UpdateState) : UpdateState :=
  { s with messages := s.messages.set n { message with reply := some ok } }

/-- One step of the system: documents come to the pipeline from here alone. -/
def step (pool : Serving) : Event → Option Serving
  | .request request => some (f.start request pool)
  | .handler i => Pool.stepThread perform i pool
  | .store n => pool.shared.messages[n]?.bind fun message =>
    if message.stored then none
    else some { pool with shared := store n message pool.shared }
  | .reply n ok => pool.shared.messages[n]?.bind fun message =>
    if message.reply.isSome || (ok && !message.stored) then none
    else some { pool with shared := reply n message ok pool.shared }
  | .pipeline (.accept _) => none
  | .pipeline action => (f.pipeline.step pool.shared.pipeline action).map fun running =>
    { pool with shared := { pool.shared with pipeline := running } }

/-- No requests, and empty queues. -/
def initial : Serving where
  shared := ⟨Pipeline.initial, [], [], [], [], []⟩
  threads _ := .pure ()
  spawned := 0

end FirstProcessor

/-! ### The protocol of a handler -/

/-- How far an `update_handler` is. -/
inductive UpdatePhase
  | unborn
  | fresh (info : MetaInfo)
  | waiting (message : ℕ)
  | due (code : ℕ)
  | answered (code : ℕ)
  | closed (code : ℕ)

/-- The status codes that were written. -/
def UpdatePhase.codes : UpdatePhase → List ℕ
  | .answered code => [code]
  | .closed code => [code]
  | _ => []

/-- **The protocol of a handler**: a push, its report, one status code, and the end. -/
def updateState : Typestate UpdateAnswer UpdatePhase where
  may φ
    | .push _ info => φ = .fresh info
    | .reported message => φ = .waiting message
    | .writeHeaders code _ => φ = .due code
    | .close => ∃ code, φ = .answered code
  expects _ _ _ := True
  after φ
    | .push _ _, message => .waiting message
    | .reported _, ok => .due (reportCode ok)
    | .writeHeaders code _, _ => .answered code
    | .close, _ =>
      match φ with
      | .answered code => .closed code
      | other => other

/-- A handler that is done has closed its reply. -/
def UpdatePhase.Ended (φ : UpdatePhase) : Prop := φ = .unborn ∨ ∃ code, φ = .closed code

namespace FirstProcessor

variable {f : FirstProcessor}

/-- The phase a handler starts in. -/
def startPhase (f : FirstProcessor) (request : UpdateRequest) : UpdatePhase :=
  match f.itemValue request.uri with
  | none => .due 400
  | some url => .fresh (.fresh url request.body)

theorem respond_adheres (code : ℕ) :
    Adheres updateState (fun _ => False) UpdatePhase.Ended (.due code) (respond code) :=
  ⟨rfl, fun _ _ => ⟨⟨code, rfl⟩, fun _ _ => .inr ⟨code, rfl⟩⟩⟩

/-- **Every handler keeps to the protocol**, and ends without an exception. -/
theorem onRequest_adheres (request : UpdateRequest) :
    Adheres updateState (fun _ => False) UpdatePhase.Ended (f.startPhase request)
      (f.onRequest request.uri request.body) := by
  unfold onRequest startPhase
  split
  · exact respond_adheres 400
  · exact ⟨rfl, fun message _ => ⟨rfl, fun ok _ => respond_adheres _⟩⟩

/-! ### The pipeline's part -/

section Pipeline

variable {pool pool' : Serving} {s s' : UpdateState} {i : ℕ}

/-- What a handler's step leaves to the pipeline. -/
theorem perform_pipeline {o : UpdateOp} {answer : UpdateAnswer o}
    (performed : perform i o s = some (answer, s')) :
    s'.pipeline = s.pipeline ∧ s'.documents = s.documents := by
  cases o with
  | reported n =>
    obtain ⟨message, -, replied⟩ := Option.bind_eq_some_iff.mp performed
    obtain ⟨ok, -, result⟩ := Option.map_eq_some_iff.mp replied
    cases result
    exact ⟨rfl, rfl⟩
  | push | writeHeaders | close =>
    cases performed
    exact ⟨rfl, rfl⟩

/-- What the pipeline does by itself. -/
theorem step_pipeline {action : Pipeline.Action}
    (stepped : f.step pool (.pipeline action) = some pool') :
    Pipeline.acceptedInfos [action] = [] ∧
      ∃ running, f.pipeline.step pool.shared.pipeline action = some running ∧
        { pool with shared := { pool.shared with pipeline := running } } = pool' := by
  cases action with
  | accept info => cases stepped
  | deliver | handler | store | reply | applyAck =>
    exact ⟨rfl, Option.map_eq_some_iff.mp stepped⟩

/-- **What the pipeline does in a run is a run of its own**, and the documents it accepts are those
that were stored. -/
theorem pipeline_run {events : List Event}
    (run : Run f.step AnyStep FirstProcessor.initial events pool) :
    ∃ actions, Run f.pipeline.step AnyStep Pipeline.initial actions pool.shared.pipeline ∧
      Pipeline.acceptedInfos actions = pool.shared.documents := by
  refine run.invariant (fun pool => ∃ actions,
    Run f.pipeline.step AnyStep Pipeline.initial actions pool.shared.pipeline ∧
      Pipeline.acceptedInfos actions = pool.shared.documents) ⟨[], .nil, rfl⟩ ?_
  rintro pool event pool' ⟨actions, run, same⟩ - stepped
  cases event with
  | request request =>
    cases stepped
    exact ⟨actions, run, same⟩
  | handler i =>
    obtain ⟨o, next, answer, s', thread, performed, rfl⟩ := Pool.stepThread_spec stepped
    obtain ⟨running, documents⟩ := perform_pipeline performed
    exact ⟨actions, running ▸ run, same.trans documents.symm⟩
  | store n =>
    obtain ⟨message, found, stepped⟩ := Option.bind_eq_some_iff.mp stepped
    split at stepped
    · cases stepped
    · cases stepped
      refine ⟨actions ++ [.accept message.info], run.snoc trivial rfl, ?_⟩
      rw [Pipeline.acceptedInfos_append, same]
      rfl
  | reply n ok =>
    obtain ⟨message, found, stepped⟩ := Option.bind_eq_some_iff.mp stepped
    split at stepped
    · cases stepped
    · cases stepped
      exact ⟨actions, run, same⟩
  | pipeline action =>
    obtain ⟨none, running, moved, rfl⟩ := step_pipeline stepped
    refine ⟨actions ++ [action], run.snoc trivial moved, ?_⟩
    rw [Pipeline.acceptedInfos_append, none, List.append_nil]
    exact same

end Pipeline

/-! ### What a reply says -/

/-- The document was made from a request. -/
def Uploaded (f : FirstProcessor) (requests : List UpdateRequest) (info : MetaInfo) : Prop :=
  ∃ request ∈ requests, ∃ url, f.itemValue request.uri = some url ∧ info = .fresh url request.body

/-- **The status code of a request**: `400` without a URL; `200` only for a document that was
stored. -/
def Verdict (f : FirstProcessor) (s : UpdateState) (request : UpdateRequest) (code : ℕ) : Prop :=
  (f.itemValue request.uri = none ∧ code = 400) ∨
    ∃ url, f.itemValue request.uri = some url ∧
      (code = 505 ∨ code = 200 ∧ .fresh url request.body ∈ s.documents)

/-- What the phase of handler `i` stands for. -/
def Means (f : FirstProcessor) (s : UpdateState) (i : ℕ) : UpdatePhase → Prop
  | .unborn => s.requests.length ≤ i
  | .fresh info => ∃ request url, s.requests[i]? = some request ∧
    f.itemValue request.uri = some url ∧ info = .fresh url request.body
  | .waiting n => ∃ request url message, s.requests[i]? = some request ∧
    f.itemValue request.uri = some url ∧ s.messages[n]? = some message ∧
    message.info = .fresh url request.body
  | .due code | .answered code | .closed code => ∃ request, s.requests[i]? = some request ∧
    Verdict f s request code

/-- **What every run keeps.** -/
structure Answering (f : FirstProcessor) (phases : ℕ → UpdatePhase) (pool : Serving) : Prop where
  adhere : pool.Adhere updateState (fun _ => False) UpdatePhase.Ended phases
  spawned : pool.shared.requests.length = pool.spawned
  means : ∀ i, Means f pool.shared i (phases i)
  codes : ∀ i, pool.shared.codes i = (phases i).codes
  uploaded : ∀ message ∈ pool.shared.messages, Uploaded f pool.shared.requests message.info
  stored : ∀ message ∈ pool.shared.messages, message.stored = true →
    message.info ∈ pool.shared.documents
  replied : ∀ message ∈ pool.shared.messages, message.reply = some true → message.stored = true
  documents : ∀ info ∈ pool.shared.documents, Uploaded f pool.shared.requests info

variable {phases : ℕ → UpdatePhase} {pool pool' : Serving} {s s' : UpdateState} {i : ℕ}

theorem Uploaded.mono {requests requests' : List UpdateRequest} {info : MetaInfo}
    (uploaded : Uploaded f requests info) (grows : requests ⊆ requests') :
    Uploaded f requests' info := by
  obtain ⟨request, member, url, named, made⟩ := uploaded
  exact ⟨request, grows member, url, named, made⟩

theorem Verdict.mono {request : UpdateRequest} {code : ℕ} (verdict : Verdict f s request code)
    (documents : s.documents ⊆ s'.documents) : Verdict f s' request code := by
  rcases verdict with missing | ⟨url, named, failed | ⟨ok, stored⟩⟩
  · exact .inl missing
  · exact .inr ⟨url, named, .inl failed⟩
  · exact .inr ⟨url, named, .inr ⟨ok, documents stored⟩⟩

/-- **A phase keeps its meaning** while requests, messages and documents are only added. -/
theorem Means.mono {φ : UpdatePhase} (means : Means f s i φ)
    (later : s.requests.length ≤ i → s'.requests.length ≤ i)
    (requests : ∀ request, s.requests[i]? = some request → s'.requests[i]? = some request)
    (messages : ∀ (n : ℕ) (message : UpdateMessage), s.messages[n]? = some message →
      ∃ message' : UpdateMessage, s'.messages[n]? = some message' ∧ message'.info = message.info)
    (documents : s.documents ⊆ s'.documents) : Means f s' i φ := by
  cases φ with
  | unborn => exact later means
  | fresh info =>
    obtain ⟨request, url, own, rest⟩ := means
    exact ⟨request, url, requests request own, rest⟩
  | waiting n =>
    obtain ⟨request, url, message, own, named, found, made⟩ := means
    obtain ⟨message', found', same⟩ := messages n message found
    exact ⟨request, url, message', requests request own, named, found', same.trans made⟩
  | due code | answered code | closed code =>
    obtain ⟨request, own, verdict⟩ := means
    exact ⟨request, requests request own, verdict.mono documents⟩

/-- A handler with a phase of its own was started. -/
theorem Means.unborn {φ : UpdatePhase} (means : Means f s i φ)
    (missing : s.requests[i]? = none) : φ = .unborn := by
  cases φ with
  | unborn => rfl
  | fresh info =>
    obtain ⟨request, url, own, -⟩ := means
    cases missing.symm.trans own
  | waiting n =>
    obtain ⟨request, url, message, own, -⟩ := means
    cases missing.symm.trans own
  | due code | answered code | closed code =>
    obtain ⟨request, own, -⟩ := means
    cases missing.symm.trans own

/-- A message is written over by one with the same document. -/
theorem set_message {n : ℕ} {message changed : UpdateMessage} {messages : List UpdateMessage}
    (found : messages[n]? = some message) (info : changed.info = message.info) (k : ℕ)
    (other : UpdateMessage) (member : messages[k]? = some other) :
    ∃ other' : UpdateMessage, (messages.set n changed)[k]? = some other' ∧
      other'.info = other.info := by
  obtain ⟨bound, -⟩ := List.getElem?_eq_some_iff.mp found
  by_cases same : n = k
  · subst same
    cases found.symm.trans member
    exact ⟨changed, by rw [List.getElem?_set_self bound], info⟩
  · exact ⟨other, by rw [List.getElem?_set_ne same, member], rfl⟩

namespace Answering

theorem initial (f : FirstProcessor) : Answering f (fun _ => .unborn) FirstProcessor.initial where
  adhere _ := .inl rfl
  spawned := rfl
  means _ := Nat.zero_le _
  codes _ := rfl
  uploaded _ member := nomatch member
  stored _ member := nomatch member
  replied _ member := nomatch member
  documents _ member := nomatch member

/-- **A request comes.** -/
theorem start (answering : Answering f phases pool) (request : UpdateRequest) :
    Answering f (Function.update phases pool.spawned (f.startPhase request))
      (f.start request pool) where
  adhere := Pool.Adhere.spawn answering.adhere (onRequest_adheres request)
  spawned := by
    show (pool.shared.requests ++ [request]).length = pool.spawned + 1
    rw [List.length_append, answering.spawned]
    rfl
  means i := by
    have new : (pool.shared.requests ++ [request])[pool.spawned]? = some request := by
      rw [← answering.spawned]
      exact List.getElem?_concat_length
    by_cases own : i = pool.spawned
    · subst own
      rw [Function.update_self]
      unfold startPhase
      split
      · rename_i missing
        exact ⟨request, new, .inl ⟨missing, rfl⟩⟩
      · rename_i url named
        exact ⟨request, url, new, named, rfl⟩
    · rw [Function.update_of_ne own]
      refine (answering.means i).mono (fun beyond => ?_) (fun other found => ?_)
        (fun _ message found => ⟨message, found, rfl⟩) (List.Subset.refl _)
      · rw [answering.spawned] at beyond
        show (pool.shared.requests ++ [request]).length ≤ i
        rw [List.length_append, answering.spawned]
        exact Nat.lt_of_le_of_ne beyond (Ne.symm own)
      · obtain ⟨bound, -⟩ := List.getElem?_eq_some_iff.mp found
        exact (List.getElem?_append_left bound).trans found
  codes i := by
    by_cases own : i = pool.spawned
    · subst own
      have missing : pool.shared.requests[pool.spawned]? = none := by
        rw [← answering.spawned]
        exact List.getElem?_eq_none (Nat.le_refl _)
      have before := answering.codes pool.spawned
      rw [(answering.means pool.spawned).unborn missing] at before
      rw [Function.update_self]
      refine before.trans ?_
      unfold startPhase
      split
      · rfl
      · rfl
    · rw [Function.update_of_ne own]
      exact answering.codes i
  uploaded message member := (answering.uploaded message member).mono (List.subset_append_left _ _)
  stored := answering.stored
  replied := answering.replied
  documents info member := (answering.documents info member).mono (List.subset_append_left _ _)

/-- No handler moves, and messages keep their documents. -/
theorem frame (answering : Answering f phases pool) (requests : s'.requests = pool.shared.requests)
    (responses : s'.responses = pool.shared.responses)
    (grows : pool.shared.documents ⊆ s'.documents)
    (messages : ∀ (n : ℕ) (message : UpdateMessage), pool.shared.messages[n]? = some message →
      ∃ message' : UpdateMessage, s'.messages[n]? = some message' ∧ message'.info = message.info)
    (uploaded : ∀ message ∈ s'.messages, Uploaded f pool.shared.requests message.info)
    (stored : ∀ message ∈ s'.messages, message.stored = true → message.info ∈ s'.documents)
    (replied : ∀ message ∈ s'.messages, message.reply = some true → message.stored = true)
    (documents : ∀ info ∈ s'.documents, Uploaded f pool.shared.requests info) :
    Answering f phases { pool with shared := s' } where
  adhere := answering.adhere
  spawned := by
    show s'.requests.length = pool.spawned
    rw [requests]
    exact answering.spawned
  means i := by
    refine (answering.means i).mono ?_ ?_ messages grows
    · show _ → s'.requests.length ≤ i
      rw [requests]
      exact id
    · show ∀ request, _ → s'.requests[i]? = some request
      rw [requests]
      exact fun _ => id
  codes i := by
    show s'.codes i = _
    rw [UpdateState.codes, responses]
    exact answering.codes i
  uploaded := by
    show ∀ message ∈ s'.messages, Uploaded f s'.requests message.info
    rw [requests]
    exact uploaded
  stored := stored
  replied := replied
  documents := by
    show ∀ info ∈ s'.documents, Uploaded f s'.requests info
    rw [requests]
    exact documents

/-- **A push is stored.** -/
theorem store (answering : Answering f phases pool) {n : ℕ} {message : UpdateMessage}
    (found : pool.shared.messages[n]? = some message) :
    Answering f phases { pool with shared := store n message pool.shared } := by
  have member := List.mem_of_getElem? found
  refine answering.frame rfl rfl (List.subset_append_left _ _) (set_message found rfl)
    (fun other inside => ?_) (fun other inside own => ?_) (fun other inside ok => ?_)
    fun info inside => ?_
  · rcases List.mem_or_eq_of_mem_set inside with old | rfl
    · exact answering.uploaded other old
    · exact answering.uploaded message member
  · rcases List.mem_or_eq_of_mem_set inside with old | rfl
    · exact List.mem_append_left _ (answering.stored other old own)
    · exact List.mem_append_right _ (List.mem_singleton.mpr rfl)
  · rcases List.mem_or_eq_of_mem_set inside with old | rfl
    · exact answering.replied other old ok
    · rfl
  · rcases List.mem_append.mp inside with old | new
    · exact answering.documents info old
    · rw [List.mem_singleton.mp new]
      exact answering.uploaded message member

/-- **The reply to a push arrives**: a success only once it is stored. -/
theorem reply (answering : Answering f phases pool) {n : ℕ} {message : UpdateMessage} {ok : Bool}
    (found : pool.shared.messages[n]? = some message)
    (honest : ok = true → message.stored = true) :
    Answering f phases { pool with shared := reply n message ok pool.shared } := by
  have member := List.mem_of_getElem? found
  refine answering.frame rfl rfl (List.Subset.refl _) (set_message found rfl)
    (fun other inside => ?_) (fun other inside own => ?_) (fun other inside success => ?_)
    answering.documents
  · rcases List.mem_or_eq_of_mem_set inside with old | rfl
    · exact answering.uploaded other old
    · exact answering.uploaded message member
  · rcases List.mem_or_eq_of_mem_set inside with old | rfl
    · exact answering.stored other old own
    · exact answering.stored message member own
  · rcases List.mem_or_eq_of_mem_set inside with old | rfl
    · exact answering.replied other old success
    · exact honest (Option.some.inj success)

/-- The pipeline takes a step. -/
theorem pipeline (answering : Answering f phases pool) (running : Pipeline.Running) :
    Answering f phases { pool with shared := { pool.shared with pipeline := running } } :=
  answering.frame rfl rfl (List.Subset.refl _) (fun _ message found => ⟨message, found, rfl⟩)
    answering.uploaded answering.stored answering.replied answering.documents

/-- A handler goes on: at most a message is sent. -/
theorem moved {o : UpdateOp} {next : UpdateAnswer o → UpdateProgram Unit} {answer : UpdateAnswer o}
    (answering : Answering f phases pool) (thread : pool.threads i = .op o next)
    {φ : UpdatePhase} (after : updateState.after (phases i) o answer = φ)
    (requests : s'.requests = pool.shared.requests)
    (documents : s'.documents = pool.shared.documents) {sent : List UpdateMessage}
    (messages : s'.messages = pool.shared.messages ++ sent)
    (new : ∀ message ∈ sent, Uploaded f pool.shared.requests message.info ∧
      message.stored = false ∧ message.reply = none)
    (own : Means f s' i φ) (codes : s'.codes i = φ.codes)
    (others : ∀ j, j ≠ i → s'.codes j = pool.shared.codes j) :
    Answering f (Function.update phases i φ)
      { pool with shared := s', threads := Function.update pool.threads i (next answer) } := by
  have expected : updateState.expects (phases i) o answer := trivial
  have adhere := answering.adhere.step thread expected s'
  rw [after] at adhere
  have sent_or_old : ∀ message ∈ s'.messages, message ∈ pool.shared.messages ∨ message ∈ sent :=
    fun message member => List.mem_append.mp (messages ▸ member)
  refine ⟨adhere, ?_, fun j => ?_, fun j => ?_, fun message member => ?_,
    fun message member stored => ?_, fun message member ok => ?_, ?_⟩
  · show s'.requests.length = pool.spawned
    rw [requests]
    exact answering.spawned
  · by_cases same : j = i
    · subst same
      rwa [Function.update_self]
    · rw [Function.update_of_ne same]
      refine (answering.means j).mono (fun beyond => ?_) (fun request found => ?_)
        (fun n message found => ⟨message, ?_, rfl⟩) (documents ▸ List.Subset.refl _)
      · show s'.requests.length ≤ j
        rwa [requests]
      · show s'.requests[j]? = some request
        rwa [requests]
      · obtain ⟨bound, -⟩ := List.getElem?_eq_some_iff.mp found
        show s'.messages[n]? = some message
        rw [messages]
        exact (List.getElem?_append_left bound).trans found
  · by_cases same : j = i
    · subst same
      rwa [Function.update_self]
    · rw [Function.update_of_ne same]
      exact (others j same).trans (answering.codes j)
  · show Uploaded f s'.requests message.info
    rw [requests]
    rcases sent_or_old message member with old | sent
    · exact answering.uploaded message old
    · exact (new message sent).1
  · show message.info ∈ s'.documents
    rw [documents]
    rcases sent_or_old message member with old | sent
    · exact answering.stored message old stored
    · cases (new message sent).2.1.symm.trans stored
  · rcases sent_or_old message member with old | sent
    · exact answering.replied message old ok
    · cases (new message sent).2.2.symm.trans ok
  · show ∀ info ∈ s'.documents, Uploaded f s'.requests info
    rw [requests, documents]
    exact answering.documents

/-- The codes after one more was written. -/
theorem codes_cons (s : UpdateState) (code j : ℕ) :
    UpdateState.codes { s with responses := (i, code) :: s.responses } j =
      if i = j then code :: s.codes j else s.codes j := by
  rw [UpdateState.codes, List.filterMap_cons]
  split
  · rename_i same
    split at same
    · cases same
    · rename_i other
      rw [if_neg other]
      rfl
  · rename_i written same
    split at same
    · rename_i own
      cases same
      rw [if_pos own]
      rfl
    · cases same

/-- **The code after a report**: of success, only if the document was stored. -/
theorem verdict_of_reply (answering : Answering f phases pool) {message : UpdateMessage}
    (member : message ∈ pool.shared.messages) {ok : Bool} (replied : message.reply = some ok) :
    reportCode ok = 505 ∨ reportCode ok = 200 ∧ message.info ∈ pool.shared.documents := by
  cases ok with
  | false => exact .inl rfl
  | true => exact .inr ⟨rfl, answering.stored message member
      (answering.replied message member replied)⟩

/-- **A handler's step.** -/
theorem handler {o : UpdateOp} {next : UpdateAnswer o → UpdateProgram Unit}
    {answer : UpdateAnswer o} (answering : Answering f phases pool)
    (thread : pool.threads i = .op o next)
    (performed : perform i o pool.shared = some (answer, s')) :
    Answering f (Function.update phases i (updateState.after (phases i) o answer))
      { pool with shared := s', threads := Function.update pool.threads i (next answer) } := by
  have may := (answering.adhere.asks thread).1
  have means := answering.means i
  have codes := answering.codes i
  cases o with
  | push url info =>
    cases performed
    rw [show phases i = .fresh info from may] at means codes
    obtain ⟨request, address, own, named, made⟩ := means
    refine answering.moved thread rfl rfl rfl rfl (fun message new => ?_) ?_ codes fun _ _ => rfl
    · rw [List.mem_singleton.mp new]
      exact ⟨⟨request, List.mem_of_getElem? own, address, named, made⟩, rfl, rfl⟩
    · exact ⟨request, address, _, own, named, List.getElem?_concat_length, made⟩
  | reported n =>
    obtain ⟨message, found, replied⟩ := Option.bind_eq_some_iff.mp performed
    obtain ⟨ok, reply, result⟩ := Option.map_eq_some_iff.mp replied
    cases result
    rw [show phases i = .waiting n from may] at means codes
    obtain ⟨request, address, message', own, named, found', made⟩ := means
    cases found.symm.trans found'
    have verdict := answering.verdict_of_reply (List.mem_of_getElem? found) reply
    rw [made] at verdict
    exact answering.moved thread rfl rfl rfl (List.append_nil _).symm (fun _ none => nomatch none)
      ⟨request, own, .inr ⟨address, named, verdict⟩⟩ codes fun _ _ => rfl
  | writeHeaders code headers =>
    cases performed
    rw [show phases i = .due code from may] at means codes
    refine answering.moved thread rfl rfl rfl (List.append_nil _).symm (fun _ none => nomatch none)
      means ?_ fun j other => ?_
    · rw [codes_cons, if_pos rfl, codes]
      rfl
    · rw [codes_cons, if_neg (Ne.symm other)]
  | close =>
    cases performed
    obtain ⟨code, phase⟩ := may
    have after : updateState.after (phases i) .close () = .closed code := by rw [phase]; rfl
    rw [phase] at means codes
    rw [after]
    exact answering.moved thread after rfl rfl (List.append_nil _).symm (fun _ none => nomatch none)
      means codes fun _ _ => rfl

/-- **A step of the system.** -/
theorem step {event : Event} (answering : Answering f phases pool)
    (stepped : f.step pool event = some pool') : ∃ phases', Answering f phases' pool' := by
  cases event with
  | request request =>
    cases stepped
    exact ⟨_, answering.start request⟩
  | handler i =>
    obtain ⟨o, next, answer, s', thread, performed, rfl⟩ := Pool.stepThread_spec stepped
    exact ⟨_, answering.handler thread performed⟩
  | store n =>
    obtain ⟨message, found, stepped⟩ := Option.bind_eq_some_iff.mp stepped
    split at stepped
    · cases stepped
    · cases stepped
      exact ⟨phases, answering.store found⟩
  | reply n ok =>
    obtain ⟨message, found, stepped⟩ := Option.bind_eq_some_iff.mp stepped
    split at stepped
    · cases stepped
    · rename_i allowed
      cases stepped
      refine ⟨phases, answering.reply found fun success => ?_⟩
      subst success
      cases stored : message.stored with
      | false => simp [stored] at allowed
      | true => rfl
  | pipeline action =>
    obtain ⟨-, running, -, rfl⟩ := step_pipeline stepped
    exact ⟨phases, answering.pipeline running⟩

/-- **A whole run.** -/
theorem of_run {events : List Event} (run : Run f.step AnyStep FirstProcessor.initial events pool) :
    ∃ phases, Answering f phases pool :=
  run.invariant (fun pool => ∃ phases, Answering f phases pool) ⟨_, Answering.initial f⟩
    fun _ _ _ ⟨_, answering⟩ _ stepped => answering.step stepped

end Answering

/-! ### What the clients are told -/

open Pipeline

/-- The page is finished, or stands in a queue with what the applications before it put there. -/
def Kept (env : ParserEnv) (row : List Application) (s : UpdateState) (url body : Str) : Prop :=
  ∃ document : ℕ, s.documents[document]? = some (.fresh url body) ∧
    ((document ∈ s.pipeline.shared.finished ∧
        (.html ∈ row → (Parser.feedText env body).isSome = true)) ∨
      ∃ place ≤ row.length, ∃ entry ∈ s.pipeline.shared.queues place, entry.document = document ∧
        PageCarried env url body (row.take place) entry.info)

/-- What a status code tells: `200`, that the page is kept. -/
def Tells (env : ParserEnv) (row : List Application) (itemValue : Str → Option Str)
    (s : UpdateState) (request : UpdateRequest) (code : ℕ) : Prop :=
  (itemValue request.uri = none ∧ code = 400) ∨
    ∃ url, itemValue request.uri = some url ∧
      (code = 505 ∨ code = 200 ∧ Kept env row s url request.body)

/-- **A document that was stored is kept.** -/
theorem kept_of_stored {env : ParserEnv} {row : List Application} {actions : List Action}
    (run : Run (ofApplications env row).step AnyStep Pipeline.initial actions s.pipeline)
    (same : acceptedInfos actions = s.documents) {url body : Str}
    (stored : .fresh url body ∈ s.documents) : Kept env row s url body := by
  obtain ⟨document, found⟩ := List.getElem?_of_mem stored
  refine ⟨document, found, ?_⟩
  rw [← same] at found
  refine (kept_of_accepted run found).imp id ?_
  rintro ⟨place, bound, entry, member, rfl⟩
  exact ⟨place, bound, entry, member, rfl, pageCarried_of_entry run bound member found⟩

/-- The code that a handler wrote is its request's. -/
theorem Answering.verdict (answering : Answering f phases pool) {request : UpdateRequest}
    (own : pool.shared.requests[i]? = some request) {code : ℕ}
    (wrote : code ∈ pool.shared.codes i) :
    Verdict f pool.shared request code := by
  have means := answering.means i
  rw [answering.codes i] at wrote
  generalize phases i = φ at means wrote
  cases φ with
  | answered other | closed other =>
    obtain ⟨known, found, verdict⟩ := means
    cases own.symm.trans found
    rwa [List.mem_singleton.mp wrote]
  | unborn | fresh | waiting | due => cases wrote

/-- **A handler answers once**, and is not done before. -/
theorem Answering.answers (answering : Answering f phases pool) {request : UpdateRequest}
    (own : pool.shared.requests[i]? = some request) :
    pool.threads i ≠ .throw ∧ (pool.shared.codes i).length ≤ 1 ∧
      (pool.threads i = .pure () → (pool.shared.codes i).length = 1) := by
  have adheres := answering.adhere i
  have means := answering.means i
  rw [answering.codes i]
  generalize phases i = φ at adheres means
  refine ⟨fun thread => ?_, ?_, fun thread => ?_⟩
  · rw [thread] at adheres
    exact adheres
  · cases φ with
    | answered code | closed code => exact Nat.le_refl _
    | unborn | fresh | waiting | due => exact Nat.zero_le _
  · rw [thread] at adheres
    rcases adheres with rfl | ⟨code, rfl⟩
    · rw [List.getElem?_eq_none means] at own
      cases own
    · rfl

/-- **Uploading pages.** However requests, messages and the pipeline's steps interleave: a client
is answered at most once, and once its handler is done; `400` if the request names no URL, `505` or
`200` if it does, and a page answered with `200` is finished or stands in a queue, with its URL and
body and what the applications before that queue made of them. Nothing stands in a queue but the
pages of such requests. -/
theorem uploads_answered (env : ParserEnv) (row : List Application) (itemValue : Str → Option Str)
    (events : List Event) (pool : Serving)
    (run : Run (step ⟨ofApplications env row, itemValue⟩) AnyStep FirstProcessor.initial events
      pool) :
    (∀ i request, pool.shared.requests[i]? = some request →
      pool.threads i ≠ .throw ∧ (pool.shared.codes i).length ≤ 1 ∧
        (pool.threads i = .pure () → (pool.shared.codes i).length = 1) ∧
        ∀ code ∈ pool.shared.codes i, Tells env row itemValue pool.shared request code) ∧
    ∀ stage ≤ row.length, ∀ entry ∈ pool.shared.pipeline.shared.queues stage,
      ∃ request ∈ pool.shared.requests, ∃ url, itemValue request.uri = some url ∧
        PageCarried env url request.body (row.take stage) entry.info := by
  obtain ⟨phases, answering⟩ := Answering.of_run run
  obtain ⟨actions, running, same⟩ := pipeline_run run
  refine ⟨fun i request own => ?_, fun stage bound entry member => ?_⟩
  · obtain ⟨returns, once, answered⟩ := answering.answers own
    refine ⟨returns, once, answered, fun code wrote => ?_⟩
    rcases answering.verdict own wrote with missing | ⟨url, named, failed | ⟨ok, stored⟩⟩
    · exact .inl missing
    · exact .inr ⟨url, named, .inl failed⟩
    · exact .inr ⟨url, named, .inr ⟨ok, kept_of_stored running same stored⟩⟩
  · obtain ⟨first, found, -⟩ := (contents_carried _ actions _ running).1 stage entry member
    obtain ⟨request, known, url, named, rfl⟩ :=
      answering.documents first (same ▸ List.mem_of_getElem? found)
    exact ⟨request, known, url, named, pageCarried_of_entry running bound member found⟩

/-- A page of one word is uploaded, and its push stored and reported. -/
def oneUpload : List Event :=
  [.request ⟨['u'], ['a']⟩, .handler 0, .store 0, .pipeline (.deliver 0 0), .reply 0 true,
    .handler 0, .handler 0, .handler 0]

theorem oneUpload_runs : (exec (step ⟨ofApplications .plain [.html], some⟩) (fun _ _ => true)
    FirstProcessor.initial oneUpload).isSome = true := by decide +kernel

theorem uploads_answered_oneUpload :
    Tells .plain [.html] some (endState oneUpload_runs).shared ⟨['u'], ['a']⟩ 200 :=
  ((uploads_answered .plain [.html] some oneUpload (endState oneUpload_runs)
    (Run.of_endState (fun _ _ _ => trivial) oneUpload_runs)).1 0 ⟨['u'], ['a']⟩ rfl).2.2.2 200
    (by decide +kernel)

end FirstProcessor

end Wookie
