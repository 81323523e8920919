/-
**The pipeline loses no document.**

`handlerState` is the protocol of one handler: it acknowledges only once its push was reported to
have succeeded, or at the last application, and says `ok` only after it acknowledged.

* `Reached` — a document is finished, or in a queue at a place or behind it.
* `Conserved` — every document accepted is reached, and every push stored, every push confirmed and
  every acknowledgement on its way stands for a document reached further on. An acknowledgement that
  is applied therefore removes no last copy (`Reached.dequeue`).
* `Honest` — what the log says: an acknowledgement comes after the report of success.
* `pipeline_loses_no_document` — both, for every run.
-/

import Wookie.Pipeline.Handler

namespace Wookie

open Library

/-- How far a handler is. -/
inductive HandlerPhase
  | unborn
  | fresh
  | waiting (message : ℕ)
  | confirmed
  | failed
  | acked
  deriving DecidableEq

/-- The phase after the report of a push. -/
def afterReport (ok : Bool) : HandlerPhase := if ok then .confirmed else .failed

/-- **The protocol of a handler.** -/
def handlerState : Typestate PipelineAnswer HandlerPhase where
  may φ
    | .push _ _ => φ = .fresh
    | .reported message => φ = .waiting message
    | .ack => φ = .confirmed
    | .write _ => φ = .acked
    | .error _ _ => φ = .failed
    | .close => φ = .acked
  expects _ _ _ := True
  after φ
    | .push _ _, message => .waiting message
    | .reported _, ok => afterReport ok
    | .ack, _ => .acked
    | _, _ => φ

namespace Pipeline

variable {p : Pipeline}

/-- The phase a handler starts in: at the last application there is nothing to push. -/
def startPhase (p : Pipeline) (stage : ℕ) : HandlerPhase :=
  if stage = p.last then .confirmed else .fresh

theorem finish_follows : Follows handlerState (fun _ => True) .confirmed finish :=
  ⟨rfl, fun _ _ => ⟨rfl, fun _ _ => ⟨rfl, fun _ _ => trivial⟩⟩⟩

theorem push_follows (info : MetaInfo) :
    Follows handlerState (fun _ => True) .fresh (push info) := by
  unfold push
  split
  · trivial
  · refine ⟨rfl, fun message _ => ⟨rfl, fun ok _ => ?_⟩⟩
    cases ok with
    | true => exact finish_follows
    | false => exact ⟨rfl, fun _ _ => trivial⟩

/-- **Every handler keeps to the protocol.** -/
theorem processHandler_follows (stage : ℕ) (info : MetaInfo) :
    Follows handlerState (fun _ => True) (p.startPhase stage) (p.processHandler stage info) := by
  unfold processHandler startPhase
  split
  · split
    · trivial
    · exact finish_follows
  · split
    · trivial
    · exact push_follows _

/-! ### Where a document is -/

/-- **The document is finished, or in the queue of a place from `stage` on.** -/
def Reached (p : Pipeline) (s : PipelineState) (stage document : ℕ) : Prop :=
  document ∈ s.finished ∨
    ∃ place, stage ≤ place ∧ place ≤ p.last ∧ ∃ entry ∈ s.queues place, entry.document = document

variable {s s' : PipelineState} {stage document : ℕ}

/-- A document stays reached while the queues and the finished documents grow. -/
theorem Reached.grow (reached : Reached p s stage document)
    (queues : ∀ place entry, entry ∈ s.queues place → entry ∈ s'.queues place)
    (finished : ∀ document ∈ s.finished, document ∈ s'.finished) :
    Reached p s' stage document := by
  rcases reached with done | ⟨place, behind, bound, entry, member, same⟩
  · exact Or.inl (finished document done)
  · exact Or.inr ⟨place, behind, bound, entry, queues place entry member, same⟩

theorem mem_enqueue {place document : ℕ} {info : MetaInfo} (other : ℕ) (entry : QueueEntry)
    (member : entry ∈ s.queues other) : entry ∈ (s.enqueue place document info).queues other := by
  by_cases same : other = place
  · subst same
    simp [PipelineState.enqueue, member]
  · simpa [PipelineState.enqueue, same] using member

/-- A document is reached where it was just stored. -/
theorem reached_enqueue {info : MetaInfo} (bound : stage ≤ p.last) :
    Reached p (s.enqueue stage document info) stage document :=
  Or.inr ⟨stage, Nat.le_refl _, bound, ⟨document, s.serials, info⟩, by
    simp [PipelineState.enqueue], rfl⟩

/-- **An acknowledgement removes no last copy**, if its document is reached further on: the copy
that goes is the one before it. -/
theorem Reached.dequeue {context : HandlerContext} (reached : Reached p s stage document)
    (further : Reached p s (context.stage + 1) context.entry.document) :
    Reached p (s.dequeue context) stage document := by
  have elsewhere : ∀ place entry, place ≠ context.stage → entry ∈ s.queues place →
      entry ∈ (s.dequeue context).queues place := fun place entry other member => by
    simpa [PipelineState.dequeue, other] using member
  rcases reached with done | ⟨place, behind, bound, entry, member, same⟩
  · exact Or.inl done
  · by_cases gone : place = context.stage ∧ entry.document = context.entry.document
    · obtain ⟨rfl, equal⟩ := gone
      rcases further with done | ⟨later, beyond, bound', entry', member', same'⟩
      · exact Or.inl (same ▸ equal ▸ done)
      · refine Or.inr ⟨later, by omega, bound', entry', ?_, same'.trans (equal.symm.trans same)⟩
        exact elsewhere later entry' (by omega) member'
    · refine Or.inr ⟨place, behind, bound, entry, ?_, same⟩
      by_cases here : place = context.stage
      · subst here
        have other : entry.document ≠ context.entry.document := fun equal => gone ⟨rfl, equal⟩
        simp [PipelineState.dequeue, member, other]
      · exact elsewhere place entry here member

/-! ### No last copy is removed -/

/-- **What every run of the pipeline keeps.** -/
structure Conserved (p : Pipeline) (phases : ℕ → HandlerPhase) (pool : Running) : Prop where
  keeps : pool.Keeps handlerState phases
  fresh : ∀ i, phases i = .fresh →
    ∃ context, pool.shared.contexts i = some context ∧ context.stage < p.last
  waiting : ∀ i n, phases i = .waiting n →
    ∃ message context, pool.shared.pushes[n]? = some message ∧
      pool.shared.contexts i = some context ∧ message.stage = context.stage + 1 ∧
      message.document = context.entry.document
  confirmed : ∀ i, phases i = .confirmed →
    ∃ context, pool.shared.contexts i = some context ∧
      (context.stage = p.last ∨
        Reached p pool.shared (context.stage + 1) context.entry.document)
  placed : ∀ message ∈ pool.shared.pushes, message.stage ≤ p.last
  stored : ∀ message ∈ pool.shared.pushes, message.stored = true →
    Reached p pool.shared message.stage message.document
  replied : ∀ message ∈ pool.shared.pushes, message.reply = some true → message.stored = true
  acked : ∀ context ∈ pool.shared.acks,
    Reached p pool.shared (context.stage + 1) context.entry.document
  accepted : ∀ document < pool.shared.accepted, Reached p pool.shared 0 document

namespace Conserved

variable {phases : ℕ → HandlerPhase} {pool : Running}

theorem initial (p : Pipeline) : Conserved p (fun _ => .unborn) Pipeline.initial where
  keeps _ := trivial
  fresh _ equal := nomatch equal
  waiting _ _ equal := nomatch equal
  confirmed _ equal := nomatch equal
  placed _ member := nomatch member
  stored _ member := nomatch member
  replied _ member := nomatch member
  acked _ member := nomatch member
  accepted _ bound := absurd bound (Nat.not_lt_zero _)

/-- Steps of the queues and the messages: no handler moves, and every document reached stays so. -/
theorem frame (conserved : Conserved p phases pool) {s' : PipelineState}
    (contexts : s'.contexts = pool.shared.contexts) (acks : s'.acks = pool.shared.acks)
    (reached : ∀ stage document, Reached p pool.shared stage document →
      Reached p s' stage document)
    (messages : ∀ (n : ℕ) (message : PushMessage), pool.shared.pushes[n]? = some message →
      ∃ message' : PushMessage, s'.pushes[n]? = some message' ∧ message'.stage = message.stage ∧
        message'.document = message.document)
    (placed : ∀ message ∈ s'.pushes, message.stage ≤ p.last)
    (stored : ∀ message ∈ s'.pushes, message.stored = true →
      Reached p s' message.stage message.document)
    (replied : ∀ message ∈ s'.pushes, message.reply = some true → message.stored = true)
    (accepted : ∀ document < s'.accepted, Reached p s' 0 document) :
    Conserved p phases { pool with shared := s' } where
  keeps := conserved.keeps
  fresh i phase := by
    rw [contexts]
    exact conserved.fresh i phase
  waiting i n phase := by
    obtain ⟨message, context, found, own, stage, document⟩ := conserved.waiting i n phase
    obtain ⟨message', found', stage', document'⟩ := messages n message found
    exact ⟨message', context, found', contexts ▸ own, stage'.trans stage, document'.trans document⟩
  confirmed i phase := by
    obtain ⟨context, own, further⟩ := conserved.confirmed i phase
    exact ⟨context, contexts ▸ own, further.imp_right (reached _ _)⟩
  placed := placed
  stored := stored
  replied := replied
  acked context member := reached _ _ (conserved.acked context (acks ▸ member))
  accepted := accepted

/-- A document is accepted. -/
theorem accept (conserved : Conserved p phases pool) (info : MetaInfo) :
    Conserved p phases (accept info pool) := by
  have reached : ∀ stage document, Reached p pool.shared stage document →
      Reached p { pool.shared.enqueue 0 pool.shared.accepted info with
        accepted := pool.shared.accepted + 1 } stage document := fun _ _ before =>
    before.grow (fun other entry member => mem_enqueue other entry member) fun _ done => done
  refine conserved.frame rfl rfl reached (fun n message found => ⟨message, found, rfl, rfl⟩)
    conserved.placed (fun message member done => reached _ _ (conserved.stored message member done))
    conserved.replied fun document bound => ?_
  have bound : document < pool.shared.accepted + 1 := bound
  by_cases old : document < pool.shared.accepted
  · exact reached _ _ (conserved.accepted document old)
  · have new : document = pool.shared.accepted := by omega
    subst new
    have here : Reached p (pool.shared.enqueue 0 pool.shared.accepted info) 0
        pool.shared.accepted := reached_enqueue (Nat.zero_le _)
    exact here

/-- An acknowledgement is applied. -/
theorem applyAck (conserved : Conserved p phases pool) {context : HandlerContext}
    (member : context ∈ pool.shared.acks) :
    Conserved p phases { pool with shared := pool.shared.dequeue context } := by
  have reached : ∀ stage document, Reached p pool.shared stage document →
      Reached p (pool.shared.dequeue context) stage document := fun _ _ before =>
    before.dequeue (conserved.acked context member)
  exact conserved.frame rfl rfl reached (fun n message found => ⟨message, found, rfl, rfl⟩)
    conserved.placed (fun message member done => reached _ _ (conserved.stored message member done))
    conserved.replied fun document bound => reached _ _ (conserved.accepted document bound)

/-- A message is written over by one for the same document and place. -/
theorem set_message {n : ℕ} {message changed : PushMessage} {pushes : List PushMessage}
    (found : pushes[n]? = some message) (stage : changed.stage = message.stage)
    (document : changed.document = message.document) (k : ℕ) (other : PushMessage)
    (member : pushes[k]? = some other) :
    ∃ other' : PushMessage, (pushes.set n changed)[k]? = some other' ∧
      other'.stage = other.stage ∧ other'.document = other.document := by
  obtain ⟨bound, _⟩ := List.getElem?_eq_some_iff.mp found
  by_cases same : n = k
  · subst same
    cases found.symm.trans member
    exact ⟨changed, by rw [List.getElem?_set_self bound], stage, document⟩
  · exact ⟨other, by rw [List.getElem?_set_ne same, member], rfl, rfl⟩

/-- **A push reaches its queue.** -/
theorem store (conserved : Conserved p phases pool) {n : ℕ} {message : PushMessage}
    (found : pool.shared.pushes[n]? = some message) :
    Conserved p phases { pool with shared := store n message pool.shared } := by
  have member := List.mem_of_getElem? found
  have reached : ∀ stage document, Reached p pool.shared stage document →
      Reached p (Pipeline.store n message pool.shared) stage document := fun _ _ before =>
    before.grow (fun other entry member => mem_enqueue other entry member) fun _ done => done
  refine conserved.frame rfl rfl reached (set_message found rfl rfl) (fun other inside => ?_)
    (fun other inside done => ?_) (fun other inside ok => ?_)
    fun document bound => reached _ _ (conserved.accepted document bound)
  · rcases List.mem_or_eq_of_mem_set inside with old | rfl
    · exact conserved.placed other old
    · exact conserved.placed message member
  · rcases List.mem_or_eq_of_mem_set inside with old | rfl
    · exact reached _ _ (conserved.stored other old done)
    · have here : Reached p (pool.shared.enqueue message.stage message.document message.info)
          message.stage message.document := reached_enqueue (conserved.placed message member)
      exact here
  · rcases List.mem_or_eq_of_mem_set inside with old | rfl
    · exact conserved.replied other old ok
    · rfl

/-- **The reply to a push arrives**: a success only once it is stored. -/
theorem reply (conserved : Conserved p phases pool) {n : ℕ} {message : PushMessage} {ok : Bool}
    (found : pool.shared.pushes[n]? = some message) (honest : ok = true → message.stored = true) :
    Conserved p phases { pool with shared := reply n message ok pool.shared } := by
  have member := List.mem_of_getElem? found
  refine conserved.frame rfl rfl (fun _ _ before => before) (set_message found rfl rfl)
    (fun other inside => ?_) (fun other inside done => ?_) (fun other inside success => ?_)
    conserved.accepted
  · rcases List.mem_or_eq_of_mem_set inside with old | rfl
    · exact conserved.placed other old
    · exact conserved.placed message member
  · rcases List.mem_or_eq_of_mem_set inside with old | rfl
    · exact conserved.stored other old done
    · exact conserved.stored message member done
  · rcases List.mem_or_eq_of_mem_set inside with old | rfl
    · exact conserved.replied other old success
    · exact honest (Option.some.inj success)

/-- A phase after one handler's was set. -/
theorem update_phase {i j : ℕ} {φ' φ : HandlerPhase} (phase : Function.update phases i φ' j = φ) :
    (j = i ∧ φ' = φ) ∨ (j ≠ i ∧ phases j = φ) := by
  by_cases same : j = i
  · subst same
    rw [Function.update_self] at phase
    exact Or.inl ⟨rfl, phase⟩
  · rw [Function.update_of_ne same] at phase
    exact Or.inr ⟨same, phase⟩

/-- **A handler is started** with a document of its application's queue. -/
theorem deliver (conserved : Conserved p phases pool) {context : HandlerContext}
    (bound : context.stage ≤ p.last) :
    Conserved p (Function.update phases pool.spawned (p.startPhase context.stage))
      (p.deliver context pool) := by
  have kept : ∀ i, i ≠ pool.spawned →
      (p.deliver context pool).shared.contexts i = pool.shared.contexts i := fun i other => by
    simp [Pipeline.deliver, Pool.spawn, other]
  have new : (p.deliver context pool).shared.contexts pool.spawned = some context := by
    simp [Pipeline.deliver, Pool.spawn]
  refine { conserved with
    keeps := Pool.Keeps.spawn conserved.keeps (processHandler_follows _ _)
    fresh := fun i phase => ?_
    waiting := fun i n phase => ?_
    confirmed := fun i phase => ?_ }
  · rcases update_phase phase with ⟨rfl, start⟩ | ⟨other, phase⟩
    · refine ⟨context, new, ?_⟩
      unfold startPhase at start
      split at start
      · cases start
      · omega
    · rw [kept i other]
      exact conserved.fresh i phase
  · rcases update_phase phase with ⟨_, start⟩ | ⟨other, phase⟩
    · unfold startPhase at start
      split at start <;> cases start
    · rw [kept i other]
      exact conserved.waiting i n phase
  · rcases update_phase phase with ⟨rfl, start⟩ | ⟨other, phase⟩
    · refine ⟨context, new, Or.inl ?_⟩
      unfold startPhase at start
      split at start
      · assumption
      · cases start
    · rw [kept i other]
      exact conserved.confirmed i phase

section Handler

variable {i : ℕ}

/-- Every answer can come. -/
theorem keeps_after {o : PipelineOp} {next : PipelineAnswer o → PipelineProgram Unit}
    (conserved : Conserved p phases pool) (thread : pool.threads i = .op o next)
    (answer : PipelineAnswer o) (s' : PipelineState) :
    Pool.Keeps handlerState
      (Function.update phases i (handlerState.after (phases i) o answer))
      { pool with shared := s', threads := Function.update pool.threads i (next answer) } :=
  conserved.keeps.step thread trivial s'

/-- A push is issued. -/
theorem handler_push {url : Str} {info : MetaInfo} {next : ℕ → PipelineProgram Unit}
    {context : HandlerContext} (conserved : Conserved p phases pool)
    (thread : pool.threads i = .op (.push url info) next)
    (own : pool.shared.contexts i = some context) :
    Conserved p (Function.update phases i (.waiting pool.shared.pushes.length))
      { pool with
        shared := { pool.shared with
          pushes := pool.shared.pushes ++
            [⟨context.stage + 1, context.entry.document, info, false, none⟩]
          log := .pushed i :: pool.shared.log }
        threads := Function.update pool.threads i (next pool.shared.pushes.length) } := by
  have fresh : phases i = .fresh := conserved.keeps.may thread
  have before : context.stage < p.last := by
    obtain ⟨context', own', below⟩ := conserved.fresh i fresh
    cases own.symm.trans own'
    exact below
  have keeps := conserved.keeps_after thread pool.shared.pushes.length { pool.shared with
    pushes := pool.shared.pushes ++
      [PushMessage.mk (context.stage + 1) context.entry.document info false none]
    log := .pushed i :: pool.shared.log }
  refine { conserved with
    keeps := keeps
    fresh := fun j phase => ?_
    waiting := fun j n phase => ?_
    confirmed := fun j phase => ?_
    placed := fun message member => ?_
    stored := fun message member done => ?_
    replied := fun message member ok => ?_ }
  · rcases update_phase phase with ⟨_, moved⟩ | ⟨_, phase⟩
    · cases moved
    · exact conserved.fresh j phase
  · rcases update_phase phase with ⟨rfl, moved⟩ | ⟨_, phase⟩
    · cases moved
      exact ⟨_, context, List.getElem?_concat_length, own, rfl, rfl⟩
    · obtain ⟨message, context', found, rest⟩ := conserved.waiting j n phase
      obtain ⟨bound, _⟩ := List.getElem?_eq_some_iff.mp found
      exact ⟨message, context', (List.getElem?_append_left bound).trans found, rest⟩
  · rcases update_phase phase with ⟨_, moved⟩ | ⟨_, phase⟩
    · cases moved
    · exact conserved.confirmed j phase
  · rcases List.mem_append.mp member with old | new
    · exact conserved.placed message old
    · rw [List.mem_singleton.mp new]
      exact before
  · rcases List.mem_append.mp member with old | new
    · exact conserved.stored message old done
    · rw [List.mem_singleton.mp new] at done
      cases done
  · rcases List.mem_append.mp member with old | new
    · exact conserved.replied message old ok
    · rw [List.mem_singleton.mp new] at ok
      cases ok

/-- **A push is reported**: after a success the document is reached further on. -/
theorem handler_reported {n : ℕ} {next : Bool → PipelineProgram Unit} {message : PushMessage}
    {ok : Bool} (conserved : Conserved p phases pool)
    (thread : pool.threads i = .op (.reported n) next)
    (found : pool.shared.pushes[n]? = some message) (reply : message.reply = some ok) :
    Conserved p (Function.update phases i (afterReport ok))
      { pool with
        shared := pool.shared.record (.reported i message.stage message.document ok)
        threads := Function.update pool.threads i (next ok) } := by
  have waiting : phases i = .waiting n := conserved.keeps.may thread
  have keeps := conserved.keeps_after thread ok
    (pool.shared.record (.reported i message.stage message.document ok))
  refine { conserved with
    keeps := keeps
    fresh := fun j phase => ?_
    waiting := fun j k phase => ?_
    confirmed := fun j phase => ?_ }
  · rcases update_phase phase with ⟨_, moved⟩ | ⟨_, phase⟩
    · cases ok <;> cases moved
    · exact conserved.fresh j phase
  · rcases update_phase phase with ⟨_, moved⟩ | ⟨_, phase⟩
    · cases ok <;> cases moved
    · exact conserved.waiting j k phase
  · rcases update_phase phase with ⟨rfl, moved⟩ | ⟨_, phase⟩
    · cases ok with
      | false => cases moved
      | true =>
        obtain ⟨message', context, found', own, stage, document⟩ := conserved.waiting j n waiting
        cases found.symm.trans found'
        have member := List.mem_of_getElem? found
        have further := conserved.stored message member (conserved.replied message member reply)
        rw [stage, document] at further
        exact ⟨context, own, Or.inr further⟩
    · exact conserved.confirmed j phase

/-- **An acknowledgement is issued**: the document is reached further on, or finished with it. -/
theorem handler_ack {next : Unit → PipelineProgram Unit} {context : HandlerContext}
    (conserved : Conserved p phases pool) (thread : pool.threads i = .op .ack next)
    (own : pool.shared.contexts i = some context) :
    Conserved p (Function.update phases i .acked)
      { pool with
        shared := { pool.shared with
          acks := pool.shared.acks ++ [context]
          finished := if context.stage = p.last then context.entry.document :: pool.shared.finished
            else pool.shared.finished
          log := .acked i :: pool.shared.log }
        threads := Function.update pool.threads i (next ()) } := by
  have confirmed : phases i = .confirmed := conserved.keeps.may thread
  have keeps := conserved.keeps_after thread () { pool.shared with
    acks := pool.shared.acks ++ [context]
    finished := if context.stage = p.last then context.entry.document :: pool.shared.finished
      else pool.shared.finished
    log := .acked i :: pool.shared.log }
  have reached : ∀ {s' : PipelineState} {stage document : ℕ},
      s'.queues = pool.shared.queues →
      s'.finished = (if context.stage = p.last then
        context.entry.document :: pool.shared.finished else pool.shared.finished) →
      Reached p pool.shared stage document → Reached p s' stage document :=
    fun queues finished before => before.grow (fun _ _ member => queues ▸ member) fun _ done => by
      rw [finished]
      split
      · exact List.mem_cons_of_mem _ done
      · exact done
  refine { conserved with
    keeps := keeps
    fresh := fun j phase => ?_
    waiting := fun j k phase => ?_
    confirmed := fun j phase => ?_
    stored := fun message member done => reached rfl rfl (conserved.stored message member done)
    acked := fun acked member => ?_
    accepted := fun document bound => reached rfl rfl (conserved.accepted document bound) }
  · rcases update_phase phase with ⟨_, moved⟩ | ⟨_, phase⟩
    · cases moved
    · exact conserved.fresh j phase
  · rcases update_phase phase with ⟨_, moved⟩ | ⟨_, phase⟩
    · cases moved
    · exact conserved.waiting j k phase
  · rcases update_phase phase with ⟨_, moved⟩ | ⟨_, phase⟩
    · cases moved
    · obtain ⟨context', own', further⟩ := conserved.confirmed j phase
      exact ⟨context', own', further.imp_right (reached rfl rfl)⟩
  · rcases List.mem_append.mp member with old | new
    · exact reached rfl rfl (conserved.acked acked old)
    · cases List.mem_singleton.mp new
      obtain ⟨context', own', last | further⟩ := conserved.confirmed i confirmed
      · cases own.symm.trans own'
        refine Or.inl ?_
        show _ ∈ (if context.stage = p.last then _ else _)
        rw [if_pos last]
        exact List.mem_cons_self
      · cases own.symm.trans own'
        exact reached rfl rfl further

/-- **A handler goes on**: its phase moves by the protocol. -/
theorem handler {o : PipelineOp} {next : PipelineAnswer o → PipelineProgram Unit}
    {answer : PipelineAnswer o} {s' : PipelineState} (conserved : Conserved p phases pool)
    (thread : pool.threads i = .op o next)
    (performed : p.perform i o pool.shared = some (answer, s')) :
    Conserved p (Function.update phases i (handlerState.after (phases i) o answer))
      { pool with shared := s', threads := Function.update pool.threads i (next answer) } := by
  -- the replies of the handler move nothing
  have quiet : handlerState.after (phases i) o answer = phases i →
      (∃ event, s' = pool.shared.record event) →
      Conserved p (Function.update phases i (handlerState.after (phases i) o answer))
        { pool with shared := s', threads := Function.update pool.threads i (next answer) } := by
    rintro same ⟨event, rfl⟩
    have keeps := conserved.keeps_after thread answer (pool.shared.record event)
    rw [same, Function.update_eq_self] at keeps ⊢
    exact { conserved with keeps := keeps }
  cases o with
  | push url info =>
    obtain ⟨context, own, result⟩ := Option.map_eq_some_iff.mp performed
    cases result
    exact conserved.handler_push thread own
  | reported n =>
    obtain ⟨message, found, replied⟩ := Option.bind_eq_some_iff.mp performed
    obtain ⟨ok, reply, result⟩ := Option.map_eq_some_iff.mp replied
    cases result
    exact conserved.handler_reported thread found reply
  | ack =>
    obtain ⟨context, own, result⟩ := Option.map_eq_some_iff.mp performed
    cases result
    exact conserved.handler_ack thread own
  | write text =>
    cases performed
    exact quiet rfl ⟨_, rfl⟩
  | error code text =>
    cases performed
    exact quiet rfl ⟨_, rfl⟩
  | close =>
    cases performed
    exact quiet rfl ⟨_, rfl⟩

end Handler

end Conserved

/-! ### What the log says -/

/-- **What the log says of a handler**, by its phase. -/
structure Honest (p : Pipeline) (phases : ℕ → HandlerPhase) (pool : Running) : Prop where
  unborn : ∀ i, pool.spawned ≤ i → phases i = .unborn
  refused : ∀ i stage document, .reported i stage document false ∈ pool.shared.log →
    phases i = .failed
  wrote : ∀ i text, .wrote i text ∈ pool.shared.log → phases i = .acked
  acknowledged : ∀ i, .acked i ∈ pool.shared.log →
    phases i = .acked ∧ ∃ context, pool.shared.contexts i = some context
  confirmed : ∀ i context, phases i = .confirmed → pool.shared.contexts i = some context →
    context.stage = p.last ∨
      .reported i (context.stage + 1) context.entry.document true ∈ pool.shared.log
  order : ∀ i earlier context, (.acked i :: earlier) <:+ pool.shared.log →
    pool.shared.contexts i = some context → context.stage = p.last ∨
      .reported i (context.stage + 1) context.entry.document true ∈ earlier

namespace Honest

variable {phases : ℕ → HandlerPhase} {pool : Running}

theorem initial (p : Pipeline) : Honest p (fun _ => .unborn) Pipeline.initial where
  unborn _ _ := rfl
  refused _ _ _ member := nomatch member
  wrote _ _ member := nomatch member
  acknowledged _ member := nomatch member
  confirmed _ _ equal := nomatch equal
  order _ _ _ suffix := by
    have empty := List.suffix_nil.mp suffix
    cases empty

/-- Steps that neither start a handler nor let one go on. -/
theorem frame (honest : Honest p phases pool) {s' : PipelineState}
    (contexts : s'.contexts = pool.shared.contexts) (log : s'.log = pool.shared.log) :
    Honest p phases { pool with shared := s' } where
  unborn := honest.unborn
  refused i stage document member := honest.refused i stage document (log ▸ member)
  wrote i text member := honest.wrote i text (log ▸ member)
  acknowledged i member := contexts ▸ honest.acknowledged i (log ▸ member)
  confirmed i context phase own := by
    have before := honest.confirmed i context phase (contexts ▸ own)
    exact before.imp_right fun member => log.symm ▸ member
  order i earlier context suffix own := honest.order i earlier context (log ▸ suffix)
    (contexts ▸ own)

/-- A handler that is started has done nothing yet. -/
theorem deliver (honest : Honest p phases pool) (context : HandlerContext) :
    Honest p (Function.update phases pool.spawned (p.startPhase context.stage))
      (p.deliver context pool) := by
  have none_yet : ∀ i φ, φ ≠ .unborn → phases i = φ → i ≠ pool.spawned := fun i φ born phase same =>
    born (phase.symm.trans (honest.unborn i (Nat.le_of_eq same.symm)))
  have kept : ∀ i φ, φ ≠ .unborn → phases i = φ →
      Function.update phases pool.spawned (p.startPhase context.stage) i = φ :=
    fun i φ born phase => by rw [Function.update_of_ne (none_yet i φ born phase), phase]
  have same_context : ∀ i, i ≠ pool.spawned →
      (p.deliver context pool).shared.contexts i = pool.shared.contexts i := fun i other => by
    simp [Pipeline.deliver, Pool.spawn, other]
  refine ⟨fun i bound => ?_, fun i stage document member => ?_, fun i text member => ?_,
    fun i member => ?_, fun i own phase found => ?_, fun i earlier own suffix found => ?_⟩
  · have bound : pool.spawned + 1 ≤ i := bound
    rw [Function.update_of_ne (by omega)]
    exact honest.unborn i (by omega)
  · exact kept i _ (fun equal => by cases equal) (honest.refused i stage document member)
  · exact kept i _ (fun equal => by cases equal) (honest.wrote i text member)
  · obtain ⟨acked, own, found⟩ := honest.acknowledged i member
    have other := none_yet i .acked (fun equal => by cases equal) acked
    exact ⟨kept i _ (fun equal => by cases equal) acked, own, (same_context i other).trans found⟩
  · rcases Conserved.update_phase phase with ⟨rfl, start⟩ | ⟨other, phase⟩
    · have new : (p.deliver context pool).shared.contexts pool.spawned = some context := by
        simp [Pipeline.deliver, Pool.spawn]
      cases new.symm.trans found
      unfold startPhase at start
      split at start
      · exact Or.inl (by assumption)
      · cases start
    · exact honest.confirmed i own phase (same_context i other ▸ found)
  · obtain ⟨acked, _⟩ := honest.acknowledged i (suffix.mem List.mem_cons_self)
    have other := none_yet i .acked (fun equal => by cases equal) acked
    exact honest.order i earlier own suffix (same_context i other ▸ found)

/-- What an event of handler `i` says of the phase it leads to. -/
def Says (i : ℕ) (φ : HandlerPhase) : PipelineEvent → Prop
  | .reported j _ _ ok => j = i ∧ (ok = false → φ = .failed)
  | .wrote j _ => j = i ∧ φ = .acked
  | .acked j => j = i ∧ φ = .acked
  | _ => True

/-- **A handler goes on**: one event, which says what its new phase is. A handler whose push failed,
or which acknowledged, stays so. -/
theorem move {i : ℕ} {φ : HandlerPhase} {event : PipelineEvent} {s' : PipelineState}
    {threads : ℕ → PipelineProgram Unit} (honest : Honest p phases pool)
    (contexts : s'.contexts = pool.shared.contexts) (log : s'.log = event :: pool.shared.log)
    (born : phases i ≠ .unborn) (told : Says i φ event)
    (stays : phases i = .failed ∨ phases i = .acked → φ = phases i)
    (confirmed : ∀ context, φ = .confirmed → pool.shared.contexts i = some context →
      context.stage = p.last ∨
        .reported i (context.stage + 1) context.entry.document true ∈ s'.log)
    (acked : event = .acked i → phases i = .confirmed ∧
      ∃ context, pool.shared.contexts i = some context) :
    Honest p (Function.update phases i φ) { pool with shared := s', threads := threads } := by
  have old : ∀ j ψ, ψ = .failed ∨ ψ = .acked → phases j = ψ → Function.update phases i φ j = ψ :=
    fun j ψ kind phase => by
      by_cases mine : j = i
      · subst mine
        rw [Function.update_self, stays (phase ▸ kind), phase]
      · rw [Function.update_of_ne mine, phase]
  refine ⟨fun j bound => ?_, fun j stage document member => ?_, fun j text member => ?_,
    fun j member => ?_, fun j context phase own => ?_, fun j earlier context suffix own => ?_⟩
  · have other : j ≠ i := fun same => born (honest.unborn i (same ▸ bound))
    rw [Function.update_of_ne other]
    exact honest.unborn j bound
  · rcases List.mem_cons.mp (log ▸ member) with new | before
    · subst new
      obtain ⟨rfl, failed⟩ := told
      rw [Function.update_self, failed rfl]
    · exact old j _ (Or.inl rfl) (honest.refused j stage document before)
  · rcases List.mem_cons.mp (log ▸ member) with new | before
    · subst new
      obtain ⟨rfl, done⟩ := told
      rw [Function.update_self, done]
    · exact old j _ (Or.inr rfl) (honest.wrote j text before)
  · rcases List.mem_cons.mp (log ▸ member) with new | before
    · subst new
      obtain ⟨rfl, done⟩ := told
      rw [Function.update_self, done]
      exact ⟨rfl, contexts ▸ (acked rfl).2⟩
    · obtain ⟨done, own⟩ := honest.acknowledged j before
      exact ⟨old j _ (Or.inr rfl) done, contexts ▸ own⟩
  · have own : pool.shared.contexts j = some context := contexts ▸ own
    rcases Conserved.update_phase phase with ⟨rfl, now⟩ | ⟨_, before⟩
    · exact confirmed context now own
    · show _ ∨ _ ∈ s'.log
      rw [log]
      exact (honest.confirmed j context before own).imp_right (List.mem_cons_of_mem _)
  · have own : pool.shared.contexts j = some context := contexts ▸ own
    rcases List.suffix_cons_iff.mp (log ▸ suffix) with whole | before
    · cases whole
      obtain ⟨rfl, _⟩ := told
      exact honest.confirmed j context (acked rfl).1 own
    · exact honest.order j earlier context before own

/-- Who asks has been started. -/
theorem born_of_may {φ : HandlerPhase} {o : PipelineOp} (may : handlerState.may φ o) :
    φ ≠ .unborn := by
  rintro rfl
  cases o <;> cases may

theorem handler {i : ℕ} {o : PipelineOp} {next : PipelineAnswer o → PipelineProgram Unit}
    {answer : PipelineAnswer o} {s' : PipelineState} (honest : Honest p phases pool)
    (conserved : Conserved p phases pool) (thread : pool.threads i = .op o next)
    (performed : p.perform i o pool.shared = some (answer, s')) :
    Honest p (Function.update phases i (handlerState.after (phases i) o answer))
      { pool with shared := s', threads := Function.update pool.threads i (next answer) } := by
  have may := conserved.keeps.may thread
  have born := born_of_may may
  cases o with
  | push url info =>
    have fresh : phases i = .fresh := may
    obtain ⟨context, own, result⟩ := Option.map_eq_some_iff.mp performed
    cases result
    refine honest.move rfl rfl born trivial ?_ (fun _ phase => nomatch phase)
      fun equal => nomatch equal
    rw [fresh]
    rintro (equal | equal) <;> cases equal
  | reported n =>
    have waiting : phases i = .waiting n := may
    obtain ⟨message, found, replied⟩ := Option.bind_eq_some_iff.mp performed
    obtain ⟨ok, _, result⟩ := Option.map_eq_some_iff.mp replied
    obtain ⟨message', context, found', own, stage, document⟩ := conserved.waiting i n waiting
    cases found.symm.trans found'
    have moves : phases i = .failed ∨ phases i = .acked → False := by
      rw [waiting]
      rintro (equal | equal) <;> cases equal
    cases ok with
    | false =>
      cases result
      exact honest.move rfl rfl born ⟨rfl, fun _ => rfl⟩ (fun kind => (moves kind).elim)
        (fun _ phase => nomatch phase) fun equal => nomatch equal
    | true =>
      cases result
      refine honest.move rfl rfl born ⟨rfl, fun refused => nomatch refused⟩
        (fun kind => (moves kind).elim) (fun context' _ own' => ?_) fun equal => nomatch equal
      cases own.symm.trans own'
      rw [← stage, ← document]
      exact Or.inr List.mem_cons_self
  | ack =>
    have confirmed : phases i = .confirmed := may
    obtain ⟨context, own, result⟩ := Option.map_eq_some_iff.mp performed
    cases result
    refine honest.move rfl rfl born ⟨rfl, rfl⟩ ?_ (fun _ phase => nomatch phase)
      fun _ => ⟨confirmed, context, own⟩
    rw [confirmed]
    rintro (equal | equal) <;> cases equal
  | write text =>
    have acked : phases i = .acked := may
    cases performed
    exact honest.move rfl rfl born ⟨rfl, acked⟩ (fun _ => rfl)
      (fun _ phase => nomatch acked.symm.trans phase) fun equal => nomatch equal
  | error code text =>
    have failed : phases i = .failed := may
    cases performed
    exact honest.move rfl rfl born trivial (fun _ => rfl)
      (fun _ phase => nomatch failed.symm.trans phase) fun equal => nomatch equal
  | close =>
    have acked : phases i = .acked := may
    cases performed
    exact honest.move rfl rfl born trivial (fun _ => rfl)
      (fun _ phase => nomatch acked.symm.trans phase) fun equal => nomatch equal

end Honest

/-! ### Every run -/

/-- **A step of the system keeps both.** -/
theorem step_keeps {phases : ℕ → HandlerPhase} {pool pool' : Running} {action : Action}
    (conserved : Conserved p phases pool) (honest : Honest p phases pool)
    (stepped : p.step pool action = some pool') :
    ∃ phases', Conserved p phases' pool' ∧ Honest p phases' pool' := by
  cases action with
  | accept info =>
    cases stepped
    exact ⟨phases, conserved.accept info, honest.frame rfl rfl⟩
  | deliver stage place =>
    simp only [step] at stepped
    split at stepped
    · rename_i bound
      obtain ⟨entry, _, rfl⟩ := Option.map_eq_some_iff.mp stepped
      exact ⟨_, conserved.deliver bound, honest.deliver ⟨stage, entry⟩⟩
    · cases stepped
  | handler i =>
    obtain ⟨o, next, answer, s', thread, performed, rfl⟩ := Pool.stepThread_spec stepped
    exact ⟨_, conserved.handler thread performed, honest.handler conserved thread performed⟩
  | store n =>
    obtain ⟨message, found, stepped⟩ := Option.bind_eq_some_iff.mp stepped
    split at stepped
    · cases stepped
    · cases stepped
      exact ⟨phases, conserved.store found, honest.frame rfl rfl⟩
  | reply n ok =>
    obtain ⟨message, found, stepped⟩ := Option.bind_eq_some_iff.mp stepped
    split at stepped
    · cases stepped
    · rename_i allowed
      cases stepped
      have stored : ok = true → message.stored = true := fun success => by
        by_contra missing
        simp [success, missing] at allowed
      exact ⟨phases, conserved.reply found stored, honest.frame rfl rfl⟩
  | applyAck n =>
    obtain ⟨context, found, rfl⟩ := Option.map_eq_some_iff.mp stepped
    exact ⟨phases, conserved.applyAck (List.mem_of_getElem? found), honest.frame rfl rfl⟩

/-- **The pipeline loses no document.** In every state reached, a document that was accepted and is
not finished is in the queue of some application; an acknowledgement was issued only after the push
of its document to the next application was reported to have succeeded, or by the last application;
and a handler whose push failed never said `ok`. -/
theorem pipeline_loses_no_document (p : Pipeline) (actions : List Action) (pool : Running)
    (run : Run p.step AnyStep initial actions pool) :
    (∀ document < pool.shared.accepted, document ∈ pool.shared.finished ∨
      ∃ place ≤ p.last, ∃ entry ∈ pool.shared.queues place, entry.document = document) ∧
    (∀ i earlier, (.acked i :: earlier) <:+ pool.shared.log →
      ∃ context, pool.shared.contexts i = some context ∧ (context.stage = p.last ∨
        .reported i (context.stage + 1) context.entry.document true ∈ earlier)) ∧
    (∀ i stage document, .reported i stage document false ∈ pool.shared.log →
      .wrote i okText ∉ pool.shared.log) := by
  obtain ⟨phases, conserved, honest⟩ := run.invariant
    (fun pool => ∃ phases, Conserved p phases pool ∧ Honest p phases pool)
    ⟨_, Conserved.initial p, Honest.initial p⟩
    fun _ _ _ ⟨_, conserved, honest⟩ _ stepped => step_keeps conserved honest stepped
  refine ⟨fun document bound => ?_, fun i earlier suffix => ?_,
    fun i stage document refused said => ?_⟩
  · rcases conserved.accepted document bound with done | ⟨place, _, last, entry⟩
    · exact Or.inl done
    · exact Or.inr ⟨place, last, entry⟩
  · obtain ⟨_, context, own⟩ := honest.acknowledged i (suffix.mem List.mem_cons_self)
    exact ⟨context, own, honest.order i earlier context suffix own⟩
  · have failed := honest.refused i stage document refused
    rw [honest.wrote i okText said] at failed
    cases failed

/-- Two applications; the document is pushed, acknowledged, and not yet worked on by the last. -/
def twoStages : Pipeline := ⟨1, fun _ info => some info⟩

theorem twoStages_runs : (exec twoStages.step (fun _ _ => true) initial
    [.accept ∅, .deliver 0 0, .handler 0, .store 0, .reply 0 true, .handler 0, .handler 0,
      .applyAck 0]).isSome = true := rfl

theorem pipeline_loses_no_document_twoStages :
    (0 ∈ (endState twoStages_runs).shared.finished ∨ ∃ place ≤ 1,
      ∃ entry ∈ (endState twoStages_runs).shared.queues place, entry.document = 0) :=
  (pipeline_loses_no_document twoStages _ _
    (Run.of_endState (fun _ _ _ => trivial) twoStages_runs)).1 0 (by decide)

end Pipeline

end Wookie
