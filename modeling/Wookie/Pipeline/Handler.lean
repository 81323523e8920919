/-
**The processing pipeline: `meta_info_pipeline_t` and its handlers, of `application.hpp`.**

A pipeline is a row of applications, each with a queue in front. A handler gets one document of its
application's queue, works on its meta information and pushes it to the next queue; when the push
is reported to have succeeded it acknowledges the document to its own queue, which then removes it.
The last application acknowledges at once.

* `MetaInfo` — the properties of a document: a property once set keeps its value.
* `processHandler` — a handler as a program over `PipelineOp`, the messages it sends and awaits.
* `Pipeline.step` — one event of the system: a document is accepted or delivered (any number of
  times), a handler goes on, a push reaches the next queue, its reply arrives, an acknowledgement is
  applied. Messages may be lost; a reply of success comes only after the document is stored, and an
  acknowledgement removes the document of its request.
-/

import Std.Data.TreeMap.Lemmas
import Wookie.Library.Pool
import Wookie.Record

namespace Wookie

open Library

/-! ### Meta information -/

/-- `meta_info_t::m_data`. A property is packed by msgpack. -/
abbrev MetaInfo := Std.TreeMap Str DataPointer

namespace MetaInfo

/-- `set_value`: a property that is there stays. -/
def setValue (info : MetaInfo) (name : Str) (value : Object) : MetaInfo :=
  info.insertIfNew name (.packed value)

/-- `value<std::string>`; a missing property is the empty string. -/
def value (info : MetaInfo) (name : Str) : Except ConvertError Str :=
  match info[name]? with
  | none => .ok []
  | some packed => (unpack packed).bind convertString

/-- `set_url`. -/
def setUrl (info : MetaInfo) (url : Str) : MetaInfo := info.setValue "url".toList (.raw url)

/-- `set_body`. -/
def setBody (info : MetaInfo) (body : Str) : MetaInfo := info.setValue "body".toList (.raw body)

/-- `url`. -/
def url (info : MetaInfo) : Except ConvertError Str := info.value "url".toList

end MetaInfo

/-! ### The handlers -/

/-- The messages of a handler. -/
inductive PipelineOp
  /-- `push_internal`: the answer is the place of the message. -/
  | push (url : Str) (info : MetaInfo)
  /-- The callback of a push, called with whether it succeeded. -/
  | reported (message : ℕ)
  /-- `sess.exec(that->context(), m_current_name, …)`. -/
  | ack
  /-- `response()->write`. -/
  | write (text : Str)
  /-- `response()->error`. -/
  | error (code : ℕ) (text : Str)
  /-- `response()->close`. -/
  | close

/-- What comes back. -/
def PipelineAnswer : PipelineOp → Type
  | .push _ _ => ℕ
  | .reported _ => Bool
  | _ => Unit

/-- A handler at work. -/
abbrev PipelineProgram (α : Type) := Program PipelineAnswer α

/-- One message. -/
def PipelineOp.ask (o : PipelineOp) : PipelineProgram (PipelineAnswer o) := Program.ask o

/-- The reply of a handler that is done. -/
def okText : Str := "ok".toList

/-- `meta_info_pipeline_t::finish`. -/
def finish : PipelineProgram Unit :=
  (PipelineOp.ask .ack).bind fun _ =>
  (PipelineOp.ask (.write okText)).bind fun _ =>
  PipelineOp.ask .close

/-- `connect` on a push: whether it succeeded. -/
def awaitPush (message : ℕ) : PipelineProgram Bool := PipelineOp.ask (.reported message)

/-- `meta_info_pipeline_t::push`. -/
def push (info : MetaInfo) : PipelineProgram Unit :=
  match info.url with
  | .error _ => .throw
  | .ok url =>
    (PipelineOp.ask (.push url info)).bind fun message =>
    (awaitPush message).bind fun ok =>
      if ok then finish
      else PipelineOp.ask (.error 100 "Failed to sent to next processor".toList)

/-- A row of applications. -/
structure Pipeline where
  /-- The last application is the one at this place. -/
  last : ℕ
  /-- What the application at a place does to the meta information; there is none if it throws. -/
  process : ℕ → MetaInfo → Option MetaInfo

/-- `on_request` of the application at a place: all but the last push what they made. -/
def Pipeline.processHandler (p : Pipeline) (stage : ℕ) (info : MetaInfo) : PipelineProgram Unit :=
  if stage = p.last then
    match info.url with
    | .error _ => .throw
    | .ok _ => finish
  else
    match p.process stage info with
    | none => .throw
    | some info => push info

/-! ### The system -/

/-- An element of a queue. The document it was made from is a ghost. -/
structure QueueEntry where
  document : ℕ
  serial : ℕ
  info : MetaInfo

/-- `m_context`: the request a handler was started with. -/
structure HandlerContext where
  stage : ℕ
  entry : QueueEntry

/-- A message to the queue of the application at a place. -/
structure PushMessage where
  stage : ℕ
  document : ℕ
  info : MetaInfo
  stored : Bool
  reply : Option Bool

/-- What the handlers do and learn. -/
inductive PipelineEvent
  | pushed (handler : ℕ)
  /-- The push of a document to the queue at a place. -/
  | reported (handler stage document : ℕ) (ok : Bool)
  | acked (handler : ℕ)
  | wrote (handler : ℕ) (text : Str)
  | failed (handler code : ℕ) (text : Str)
  | closed (handler : ℕ)

/-- The queues, the messages on their way, and what was observed, newest first. -/
structure PipelineState where
  queues : ℕ → List QueueEntry
  /-- The documents accepted are those below. -/
  accepted : ℕ
  serials : ℕ
  contexts : ℕ → Option HandlerContext
  pushes : List PushMessage
  acks : List HandlerContext
  finished : List ℕ
  log : List PipelineEvent

namespace PipelineState

variable (s : PipelineState)

def record (event : PipelineEvent) : PipelineState := { s with log := event :: s.log }

/-- A document is stored in the queue at a place. -/
def enqueue (stage document : ℕ) (info : MetaInfo) : PipelineState :=
  { s with
    queues := Function.update s.queues stage (s.queues stage ++ [⟨document, s.serials, info⟩])
    serials := s.serials + 1 }

/-- An acknowledgement removes the element its request was made from. -/
def dequeue (context : HandlerContext) : PipelineState :=
  { s with
    queues := Function.update s.queues context.stage ((s.queues context.stage).filter fun entry =>
      !(entry.serial == context.entry.serial && entry.document == context.entry.document)) }

end PipelineState

namespace Pipeline

variable (p : Pipeline)

/-- The answer to handler `i`, and the state after it. -/
def perform (i : ℕ) : (o : PipelineOp) → PipelineState → Option (PipelineAnswer o × PipelineState)
  | .push _ info, s => (s.contexts i).map fun context =>
    (s.pushes.length, { s with
      pushes := s.pushes ++ [⟨context.stage + 1, context.entry.document, info, false, none⟩]
      log := .pushed i :: s.log })
  | .reported n, s => s.pushes[n]?.bind fun message => message.reply.map fun ok =>
    (ok, s.record (.reported i message.stage message.document ok))
  | .ack, s => (s.contexts i).map fun context =>
    ((), { s with
      acks := s.acks ++ [context]
      finished := if context.stage = p.last then context.entry.document :: s.finished
        else s.finished
      log := .acked i :: s.log })
  | .write text, s => some ((), s.record (.wrote i text))
  | .error code text, s => some ((), s.record (.failed i code text))
  | .close, s => some ((), s.record (.closed i))

/-- The pipeline while it runs. -/
abbrev Running := Pool PipelineAnswer PipelineState

/-- An event of the system. -/
inductive Action
  | accept (info : MetaInfo)
  | deliver (stage place : ℕ)
  | handler (i : ℕ)
  | store (message : ℕ)
  | reply (message : ℕ) (ok : Bool)
  | applyAck (message : ℕ)

/-- A document is accepted into the first queue. -/
def accept (info : MetaInfo) (pool : Running) : Running :=
  { pool with
    shared := { pool.shared.enqueue 0 pool.shared.accepted info with
      accepted := pool.shared.accepted + 1 } }

/-- A handler of the application at a place is started with a document of its queue. -/
def deliver (context : HandlerContext) (pool : Running) : Running :=
  Pool.spawn
    { pool with
      shared := { pool.shared with
        contexts := Function.update pool.shared.contexts pool.spawned (some context) } }
    (p.processHandler context.stage context.entry.info)

/-- A push reaches its queue. -/
def store (n : ℕ) (message : PushMessage) (s : PipelineState) : PipelineState :=
  { s.enqueue message.stage message.document message.info with
    pushes := s.pushes.set n { message with stored := true } }

/-- The reply to a push arrives. -/
def reply (n : ℕ) (message : PushMessage) (ok : Bool) (s : PipelineState) : PipelineState :=
  { s with pushes := s.pushes.set n { message with reply := some ok } }

/-- One step of the system. -/
def step (pool : Running) : Action → Option Running
  | .accept info => some (accept info pool)
  | .deliver stage place =>
    if stage ≤ p.last then
      (pool.shared.queues stage)[place]?.map fun entry => p.deliver ⟨stage, entry⟩ pool
    else none
  | .handler i => Pool.stepThread p.perform i pool
  | .store n => pool.shared.pushes[n]?.bind fun message =>
    if message.stored then none else some { pool with shared := store n message pool.shared }
  | .reply n ok => pool.shared.pushes[n]?.bind fun message =>
    if message.reply.isSome || (ok && !message.stored) then none
    else some { pool with shared := reply n message ok pool.shared }
  | .applyAck n => pool.shared.acks[n]?.map fun context =>
    { pool with shared := pool.shared.dequeue context }

/-- Empty queues. -/
def initial : Running where
  shared :=
    { queues := fun _ => []
      accepted := 0
      serials := 0
      contexts := fun _ => none
      pushes := []
      acks := []
      finished := []
      log := [] }
  threads _ := .pure ()
  spawned := 0

end Pipeline

end Wookie
