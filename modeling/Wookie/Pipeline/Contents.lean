/-
**What the documents of the pipeline carry.**

An application works on a copy of what its queue holds and pushes the result, so a document that was
delivered twice, or whose acknowledgement is late, is in several queues at once. Each of its copies
is what the applications before that queue make of the document that was accepted.

* `Pipeline.made` — what the applications before a place make of a document.
* `Carried` — **every copy in a queue, in a handler and in a message is that**; in every state of
  every run.
* `contents_carried` — so a document that was accepted is finished, and no application threw, or
  stands in a queue with what the applications before it made.
* `Application`, `ofApplications` — the applications of `processors/`, in any order.
* `pages_carried` — **what a page carries in a row of them**: its URL and body everywhere, its
  tokens behind `html_processor`, and behind `feature_extractor` their frequencies, if
  `html_processor` stands before it.
-/

import Wookie.Pipeline.Frequencies
import Wookie.Pipeline.NoLoss

namespace Wookie

open Library

namespace Pipeline

/-- What the applications before a place make of a document. -/
def made (p : Pipeline) (first : MetaInfo) : ℕ → Option MetaInfo
  | 0 => some first
  | stage + 1 => (p.made first stage).bind (p.process stage)

/-- The documents accepted; the number of a document is its place. -/
def acceptedInfos (actions : List Action) : List MetaInfo :=
  actions.filterMap fun
    | .accept info => some info
    | _ => none

theorem acceptedInfos_append (actions more : List Action) :
    acceptedInfos (actions ++ more) = acceptedInfos actions ++ acceptedInfos more :=
  List.filterMap_append

/-- The document was accepted, and this is what the applications before the place make of it. -/
def Carries (p : Pipeline) (infos : List MetaInfo) (document stage : ℕ) (info : MetaInfo) : Prop :=
  ∃ first, infos[document]? = some first ∧ p.made first stage = some info

variable {p : Pipeline} {infos : List MetaInfo} {document stage : ℕ} {info : MetaInfo}

/-- More documents are accepted. -/
theorem Carries.append (carries : Carries p infos document stage info) (more : List MetaInfo) :
    Carries p (infos ++ more) document stage info := by
  obtain ⟨first, found, made⟩ := carries
  obtain ⟨bound, -⟩ := List.getElem?_eq_some_iff.mp found
  exact ⟨first, (List.getElem?_append_left bound).trans found, made⟩

/-- One more application. -/
theorem Carries.process {after : MetaInfo} (carries : Carries p infos document stage info)
    (processed : p.process stage info = some after) :
    Carries p infos document (stage + 1) after := by
  obtain ⟨first, found, made⟩ := carries
  refine ⟨first, found, ?_⟩
  rw [Pipeline.made, made]
  exact processed

/-! ### What a handler pushes -/

/-- **A handler pushes what its application made**, and nothing else. -/
def contentState : Typestate PipelineAnswer (Option MetaInfo) where
  may made
    | .push _ info => made = some info
    | _ => True
  expects _ _ _ := True
  after made _ _ := made

theorem finish_keeps (made : Option MetaInfo) :
    Follows contentState (fun _ => True) made finish :=
  ⟨trivial, fun _ _ => ⟨trivial, fun _ _ => ⟨trivial, fun _ _ => trivial⟩⟩⟩

theorem push_keeps (info : MetaInfo) :
    Follows contentState (fun _ => True) (some info) (push info) := by
  unfold push
  split
  · trivial
  · refine ⟨rfl, fun message _ => ⟨trivial, fun ok _ => ?_⟩⟩
    cases ok with
    | true => exact finish_keeps _
    | false => exact ⟨trivial, fun _ _ => trivial⟩

/-- **Every handler keeps to it.** -/
theorem processHandler_keeps (stage : ℕ) (info : MetaInfo) :
    Follows contentState (fun _ => True) (p.process stage info) (p.processHandler stage info) := by
  unfold processHandler
  split
  · split
    · trivial
    · exact finish_keeps _
  · split
    · trivial
    · rename_i after processed
      rw [processed]
      exact push_keeps after

/-! ### Every copy -/

/-- **Every copy of a document is what the applications before it make of it.** -/
structure Carried (p : Pipeline) (infos : List MetaInfo) (made : ℕ → Option MetaInfo)
    (pool : Running) : Prop where
  keeps : pool.Keeps contentState made
  accepted : pool.shared.accepted = infos.length
  made : ∀ i context info, pool.shared.contexts i = some context → made i = some info →
    p.process context.stage context.entry.info = some info
  contexts : ∀ i context, pool.shared.contexts i = some context →
    Carries p infos context.entry.document context.stage context.entry.info
  queues : ∀ stage, ∀ entry ∈ pool.shared.queues stage,
    Carries p infos entry.document stage entry.info
  pushes : ∀ message ∈ pool.shared.pushes,
    Carries p infos message.document message.stage message.info
  finished : ∀ document ∈ pool.shared.finished, ∃ info, Carries p infos document p.last info

namespace Carried

variable {made : ℕ → Option MetaInfo} {pool pool' : Running} {i : ℕ}

theorem initial (p : Pipeline) : Carried p [] (fun _ => none) Pipeline.initial where
  keeps _ := trivial
  accepted := rfl
  made _ _ _ _ none := nomatch none
  contexts _ _ none := nomatch none
  queues _ _ member := nomatch member
  pushes _ member := nomatch member
  finished _ member := nomatch member

/-- A document is stored that carries what it should. -/
theorem mem_enqueue {s : PipelineState}
    (queues : ∀ stage, ∀ entry ∈ s.queues stage, Carries p infos entry.document stage entry.info)
    (new : Carries p infos document stage info) :
    ∀ place, ∀ entry ∈ (s.enqueue stage document info).queues place,
      Carries p infos entry.document place entry.info := by
  intro place entry member
  by_cases here : place = stage
  · subst here
    simp only [PipelineState.enqueue, Function.update_self] at member
    rcases List.mem_append.mp member with old | added
    · exact queues place entry old
    · rw [List.mem_singleton.mp added]
      exact new
  · simp only [PipelineState.enqueue, Function.update_of_ne here] at member
    exact queues place entry member

/-- A document is accepted. -/
theorem accept (carried : Carried p infos made pool) (info : MetaInfo) :
    Carried p (infos ++ [info]) made (accept info pool) where
  keeps := carried.keeps
  accepted := by
    rw [List.length_append, ← carried.accepted]
    rfl
  made := carried.made
  contexts i context own := (carried.contexts i context own).append _
  queues := by
    refine mem_enqueue (fun stage entry member => (carried.queues stage entry member).append _)
      ⟨info, ?_, rfl⟩
    rw [carried.accepted]
    exact List.getElem?_concat_length
  pushes message member := (carried.pushes message member).append _
  finished document member := by
    obtain ⟨last, carries⟩ := carried.finished document member
    exact ⟨last, carries.append _⟩

/-- **A handler is started** with a copy. -/
theorem deliver (carried : Carried p infos made pool) {stage : ℕ} {entry : QueueEntry}
    (member : entry ∈ pool.shared.queues stage) :
    Carried p infos (Function.update made pool.spawned (p.process stage entry.info))
      (p.deliver ⟨stage, entry⟩ pool) := by
  have started : ∀ i context, (p.deliver ⟨stage, entry⟩ pool).shared.contexts i = some context →
      i = pool.spawned ∧ context = ⟨stage, entry⟩ ∨
        i ≠ pool.spawned ∧ pool.shared.contexts i = some context := by
    intro i context own
    by_cases new : i = pool.spawned
    · subst new
      simp only [Pipeline.deliver, Pool.spawn, Function.update_self] at own
      cases own
      exact .inl ⟨rfl, rfl⟩
    · simp only [Pipeline.deliver, Pool.spawn, Function.update_of_ne new] at own
      exact .inr ⟨new, own⟩
  refine { carried with
    keeps := Pool.Keeps.spawn carried.keeps (processHandler_keeps _ _)
    made := fun i context info own said => ?_
    contexts := fun i context own => ?_ }
  · rcases started i context own with ⟨rfl, rfl⟩ | ⟨other, own⟩
    · rwa [Function.update_self] at said
    · rw [Function.update_of_ne other] at said
      exact carried.made i context info own said
  · rcases started i context own with ⟨rfl, rfl⟩ | ⟨-, own⟩
    · exact carried.queues stage entry member
    · exact carried.contexts i context own

/-- **A push reaches its queue.** -/
theorem store (carried : Carried p infos made pool) {n : ℕ} {message : PushMessage}
    (found : pool.shared.pushes[n]? = some message) :
    Carried p infos made { pool with shared := store n message pool.shared } := by
  have own := carried.pushes message (List.mem_of_getElem? found)
  refine { carried with
    queues := mem_enqueue carried.queues own
    pushes := fun other member => ?_ }
  rcases List.mem_or_eq_of_mem_set member with old | rfl
  · exact carried.pushes other old
  · exact own

/-- The reply to a push arrives. -/
theorem reply (carried : Carried p infos made pool) {n : ℕ} {message : PushMessage} (ok : Bool)
    (found : pool.shared.pushes[n]? = some message) :
    Carried p infos made { pool with shared := reply n message ok pool.shared } := by
  refine { carried with pushes := fun other member => ?_ }
  rcases List.mem_or_eq_of_mem_set member with old | rfl
  · exact carried.pushes other old
  · exact carried.pushes message (List.mem_of_getElem? found)

/-- An acknowledgement is applied. -/
theorem applyAck (carried : Carried p infos made pool) (context : HandlerContext) :
    Carried p infos made { pool with shared := pool.shared.dequeue context } := by
  refine { carried with queues := fun stage entry member => ?_ }
  by_cases here : stage = context.stage
  · subst here
    simp only [PipelineState.dequeue, Function.update_self] at member
    exact carried.queues _ entry (List.mem_of_mem_filter member)
  · simp only [PipelineState.dequeue, Function.update_of_ne here] at member
    exact carried.queues stage entry member

/-- A handler goes on: what it asked may send a message and finish a document. -/
theorem moved {o : PipelineOp} {next : PipelineAnswer o → PipelineProgram Unit}
    {answer : PipelineAnswer o} {s' : PipelineState} (carried : Carried p infos made pool)
    (thread : pool.threads i = .op o next)
    (contexts : s'.contexts = pool.shared.contexts) (queues : s'.queues = pool.shared.queues)
    (accepted : s'.accepted = pool.shared.accepted)
    (pushes : ∀ message ∈ s'.pushes, message ∈ pool.shared.pushes ∨
      Carries p infos message.document message.stage message.info)
    (finished : ∀ document ∈ s'.finished, document ∈ pool.shared.finished ∨
      ∃ info, Carries p infos document p.last info) :
    Carried p infos made
      { pool with shared := s', threads := Function.update pool.threads i (next answer) } where
  keeps := by
    have expected : contentState.expects (made i) o answer := trivial
    have keeps := carried.keeps.step thread expected s'
    rwa [show contentState.after (made i) o answer = made i from rfl,
      Function.update_eq_self] at keeps
  accepted := accepted.trans carried.accepted
  made j context info own := carried.made j context info (contexts ▸ own)
  contexts j context own := carried.contexts j context (contexts ▸ own)
  queues stage entry member := carried.queues stage entry (queues ▸ member)
  pushes message member := (pushes message member).elim (carried.pushes message) id
  finished document member := (finished document member).elim (carried.finished document) id

/-- **A handler's step.** -/
theorem handler {o : PipelineOp} {next : PipelineAnswer o → PipelineProgram Unit}
    {answer : PipelineAnswer o} {s' : PipelineState} (carried : Carried p infos made pool)
    (thread : pool.threads i = .op o next)
    (performed : p.perform i o pool.shared = some (answer, s')) :
    Carried p infos made
      { pool with shared := s', threads := Function.update pool.threads i (next answer) } := by
  cases o with
  | push url info =>
    obtain ⟨context, own, result⟩ := Option.map_eq_some_iff.mp performed
    cases result
    refine carried.moved thread rfl rfl rfl (fun message member => ?_) fun _ => .inl
    rcases List.mem_append.mp member with old | new
    · exact .inl old
    · rw [List.mem_singleton.mp new]
      exact .inr ((carried.contexts i context own).process
        (carried.made i context info own (carried.keeps.may thread)))
  | reported n =>
    obtain ⟨message, -, replied⟩ := Option.bind_eq_some_iff.mp performed
    obtain ⟨ok, -, result⟩ := Option.map_eq_some_iff.mp replied
    cases result
    exact carried.moved thread rfl rfl rfl (fun _ => .inl) fun _ => .inl
  | ack =>
    obtain ⟨context, own, result⟩ := Option.map_eq_some_iff.mp performed
    cases result
    refine carried.moved thread rfl rfl rfl (fun _ => .inl) fun document member => ?_
    simp only at member
    split at member
    · rename_i last
      rcases List.mem_cons.mp member with rfl | old
      · exact .inr ⟨_, last ▸ carried.contexts i context own⟩
      · exact .inl old
    · exact .inl member
  | write | error | close =>
    cases performed
    exact carried.moved thread rfl rfl rfl (fun _ => .inl) fun _ => .inl

/-- **A step of the system.** -/
theorem step {action : Action} (carried : Carried p infos made pool)
    (stepped : p.step pool action = some pool') :
    ∃ made', Carried p (infos ++ acceptedInfos [action]) made' pool' := by
  have same : Carried p (infos ++ []) made pool := by rwa [List.append_nil]
  cases action with
  | accept info =>
    cases stepped
    exact ⟨made, carried.accept info⟩
  | deliver stage place =>
    simp only [Pipeline.step] at stepped
    split at stepped
    · obtain ⟨entry, found, rfl⟩ := Option.map_eq_some_iff.mp stepped
      exact ⟨_, same.deliver (List.mem_of_getElem? found)⟩
    · cases stepped
  | handler i =>
    obtain ⟨o, next, answer, s', thread, performed, rfl⟩ := Pool.stepThread_spec stepped
    exact ⟨_, same.handler thread performed⟩
  | store n =>
    obtain ⟨message, found, stepped⟩ := Option.bind_eq_some_iff.mp stepped
    split at stepped
    · cases stepped
    · cases stepped
      exact ⟨made, same.store found⟩
  | reply n ok =>
    obtain ⟨message, found, stepped⟩ := Option.bind_eq_some_iff.mp stepped
    split at stepped
    · cases stepped
    · cases stepped
      exact ⟨made, same.reply ok found⟩
  | applyAck n =>
    obtain ⟨context, -, rfl⟩ := Option.map_eq_some_iff.mp stepped
    exact ⟨made, same.applyAck context⟩

/-- **A whole run.** -/
theorem of_run {actions : List Action} (run : Run p.step AnyStep Pipeline.initial actions pool) :
    ∃ made, Carried p (acceptedInfos actions) made pool :=
  run.history (fun actions pool => ∃ made, Carried p (acceptedInfos actions) made pool)
    ⟨_, Carried.initial p⟩ fun before pool action pool' ⟨made, carried⟩ _ stepped => by
      rw [acceptedInfos_append]
      exact carried.step stepped

end Carried

/-- **No document is lost, and none is changed on its way.** Every copy in a queue is what the
applications before it make of the document that was accepted; and a document that was accepted is
finished, none of the applications having thrown, or has a copy in a queue. -/
theorem contents_carried (p : Pipeline) (actions : List Action) (pool : Running)
    (run : Run p.step AnyStep initial actions pool) :
    (∀ stage, ∀ entry ∈ pool.shared.queues stage,
      Carries p (acceptedInfos actions) entry.document stage entry.info) ∧
    ∀ document first, (acceptedInfos actions)[document]? = some first →
      (document ∈ pool.shared.finished ∧ ∃ info, p.made first p.last = some info) ∨
        ∃ place ≤ p.last, ∃ entry ∈ pool.shared.queues place, entry.document = document ∧
          p.made first place = some entry.info := by
  obtain ⟨made, carried⟩ := Carried.of_run run
  obtain ⟨phases, conserved, -⟩ := run.invariant
    (fun pool => ∃ phases, Conserved p phases pool ∧ Honest p phases pool)
    ⟨_, Conserved.initial p, Honest.initial p⟩
    fun _ _ _ ⟨_, conserved, honest⟩ _ stepped => step_keeps conserved honest stepped
  refine ⟨carried.queues, fun document first found => ?_⟩
  have own : ∀ stage info, Carries p (acceptedInfos actions) document stage info →
      p.made first stage = some info := by
    rintro stage info ⟨other, found', made⟩
    rw [found] at found'
    cases found'
    exact made
  obtain ⟨bound, -⟩ := List.getElem?_eq_some_iff.mp found
  rcases conserved.accepted document (carried.accepted ▸ bound) with done | ⟨place, -, last, entry,
    member, rfl⟩
  · obtain ⟨info, carries⟩ := carried.finished document done
    exact .inl ⟨done, info, own _ _ carries⟩
  · exact .inr ⟨place, last, entry, member, rfl, own _ _ (carried.queues place entry member)⟩

/-! ### The applications of `processors/` -/

/-- The applications that push. A row of them ends with `last_processor`. -/
inductive Application
  | first
  | html
  | feature
  | stub
  deriving DecidableEq

/-- `process_handler::on_request`, up to the push. An exception is `none`. -/
def Application.onRequest (env : ParserEnv) (info : MetaInfo) : Application → Option MetaInfo
  | .first => some info
  | .html => htmlProcessor env info
  | .feature => featureExtractor info
  | .stub => some (info.setValueAs .string "stub".toList "stub-info".toList)

/-- A row of applications, as `current` and `next` of their configurations connect them. What was
pushed is unpacked on arrival. -/
def ofApplications (env : ParserEnv) (row : List Application) : Pipeline where
  last := row.length
  process stage info := row[stage]?.bind (Application.onRequest env (.unpack info.pack))

/-- The tokens of a page. -/
def pageTokens (env : ParserEnv) (page : Str) : List Str :=
  ((Parser.feedText env page).map Parser.tokens).getD []

/-- The words that the first `feature_extractor` of a row counts: the tokens, once `html_processor`
has put them there. -/
def counted (tokens : List Str) (row : List Application) : Option (List Str) :=
  if .feature ∈ row then some (if .html ∈ row.takeWhile (· ≠ .feature) then tokens else [])
  else none

/-- Only the first one counts. -/
theorem counted_append (tokens : List Str) (row : List Application) (app : Application) :
    counted tokens (row ++ [app]) = (counted tokens row).or
      (if app = .feature then some (if .html ∈ row then tokens else []) else none) := by
  have others : ∀ {earlier : List Application}, .feature ∉ earlier →
      ∀ app ∈ earlier, decide (app ≠ .feature) = true := fun none app member =>
    decide_eq_true fun same => none (same ▸ member)
  by_cases before : .feature ∈ row
  · obtain ⟨earlier, later, rfl, none⟩ := List.eq_append_cons_of_mem before
    rw [counted, counted, if_pos before, if_pos (List.mem_append_left _ before), List.append_assoc,
      List.takeWhile_append_of_pos (others none), List.takeWhile_append_of_pos (others none)]
    rfl
  · rw [counted, counted, if_neg before, Option.none_or]
    by_cases now : app = .feature
    · subst now
      rw [if_pos (List.mem_append_right _ (List.mem_singleton.mpr rfl)), if_pos rfl,
        List.takeWhile_append_of_pos (others before)]
      simp
    · rw [if_neg now, if_neg]
      simp [before, Ne.symm now]

/-- **What the meta information of a page holds** behind a row of applications. -/
structure Held (env : ParserEnv) (address page : Str) (row : List Application) (info : MetaInfo) :
    Prop where
  parses : .html ∈ row → (Parser.feedText env page).isSome = true
  url : info["url".toList]? = some (.packed (.raw address))
  body : info["body".toList]? = some (.packed (.raw page))
  text : info["text".toList]? =
    if .html ∈ row then some (.packed (TypeTraits.strings.pack (pageTokens env page))) else none
  terms : info["terms_frequencies".toList]? = (counted (pageTokens env page) row).map fun words =>
    .packed (TypeTraits.frequencies.pack (tally words).toList)

namespace Held

variable {env : ParserEnv} {address page : Str} {row : List Application} {info after : MetaInfo}

/-- A document that was just accepted. -/
theorem fresh (env : ParserEnv) (address page : Str) :
    Held env address page [] (.fresh address page) := by
  have held : ∀ name, (MetaInfo.fresh address page)[name]? =
      (settings [.setUrl address, .setBody page] name).head?.map fun setting =>
        .packed (setting.traits.pack setting.value) :=
    getElem?_ofEvents [.setUrl address, .setBody page]
  exact ⟨(fun member => nomatch member), held _, held _, held _, held _⟩

/-- What is held after a transfer. -/
theorem transfer (held : Held env address page row info) :
    Held env address page row (.unpack info.pack) where
  parses := held.parses
  url := (MetaInfo.getElem?_unpack_pack info _).trans held.url
  body := (MetaInfo.getElem?_unpack_pack info _).trans held.body
  text := (MetaInfo.getElem?_unpack_pack info _).trans held.text
  terms := (MetaInfo.getElem?_unpack_pack info _).trans held.terms

/-- An application that sets another property, or none. -/
theorem other (held : Held env address page row info) {app : Application}
    (html : app ≠ .html) (feature : app ≠ .feature)
    (same : ∀ name ∈ ["url".toList, "body".toList, "text".toList, "terms_frequencies".toList],
      after[name]? = info[name]?) : Held env address page (row ++ [app]) after where
  parses member := held.parses (by simpa [Ne.symm html] using member)
  url := (same _ (by simp)).trans held.url
  body := (same _ (by simp)).trans held.body
  text := by
    rw [same _ (by simp), held.text]
    simp [Ne.symm html]
  terms := by
    rw [same _ (by simp), held.terms, counted_append, if_neg feature, Option.or_none]

/-- `html_processor` puts the tokens there, if none did before it. -/
theorem html (held : Held env address page row info)
    (processed : htmlProcessor env info = some after) :
    Held env address page (row ++ [.html]) after := by
  obtain ⟨-, -, rest⟩ := Option.bind_eq_some_iff.mp processed
  obtain ⟨body, read, rest⟩ := Option.bind_eq_some_iff.mp rest
  obtain ⟨parser, fed, made⟩ := Option.bind_eq_some_iff.mp rest
  cases made
  have own : info.body = .ok page := MetaInfo.valueAs_of_packed .string held.body
  rw [own] at read
  cases read
  have tokens : pageTokens env page = parser.tokens := by
    rw [pageTokens, fed]
    rfl
  have set : ∀ name, (info.setValueAs .strings "text".toList parser.tokens)[name]? =
      info[name]?.or (if "text".toList = name then
        some (.packed (TypeTraits.strings.pack parser.tokens)) else none) :=
    MetaInfo.getElem?_setValue _ _ _
  refine ⟨fun _ => fed ▸ rfl, ?_, ?_, ?_, ?_⟩
  · rw [set, held.url]
    rfl
  · rw [set, held.body]
    rfl
  · rw [set, held.text, if_pos rfl, if_pos (List.mem_append_right _ (List.mem_singleton.mpr rfl)),
      tokens]
    split
    · rfl
    · rfl
  · rw [set, held.terms, counted_append, if_neg (by decide), if_neg (by decide), Option.or_none,
      Option.or_none]

/-- The words that `feature_extractor` reads. -/
theorem words (held : Held env address page row info) :
    info.valueAs .strings "text".toList =
      .ok (if .html ∈ row then pageTokens env page else []) := by
  rw [MetaInfo.valueAs, held.text]
  by_cases before : .html ∈ row
  · rw [if_pos before, if_pos before]
    exact TypeTraits.strings.unpack_pack _
  · rw [if_neg before, if_neg before]
    rfl

/-- `feature_extractor` counts the tokens that are there, if none did before it. -/
theorem feature (held : Held env address page row info)
    (processed : featureExtractor info = some after) :
    Held env address page (row ++ [.feature]) after := by
  obtain ⟨-, -, rest⟩ := Option.bind_eq_some_iff.mp processed
  obtain ⟨words, read, made⟩ := Option.bind_eq_some_iff.mp rest
  cases made
  rw [held.words] at read
  cases read
  have set := MetaInfo.getElem?_setValue info "terms_frequencies".toList
    (TypeTraits.frequencies.pack (tally (if .html ∈ row then pageTokens env page else [])).toList)
  refine ⟨fun member => held.parses (by simpa using member), ?_, ?_, ?_, ?_⟩
  · exact (set _).trans (by rw [held.url]; rfl)
  · exact (set _).trans (by rw [held.body]; rfl)
  · refine (set _).trans ?_
    have other : ¬ "terms_frequencies".toList = "text".toList := by decide
    rw [held.text, if_neg other, Option.or_none]
    simp
  · refine (set _).trans ?_
    rw [held.terms, counted_append, if_pos rfl, if_pos rfl, Option.map_or]
    rfl

/-- **One more application.** -/
theorem onRequest (held : Held env address page row info) {app : Application}
    (processed : app.onRequest env info = some after) :
    Held env address page (row ++ [app]) after := by
  cases app with
  | first =>
    cases processed
    exact held.other nofun nofun fun _ _ => rfl
  | html => exact held.html processed
  | feature => exact held.feature processed
  | stub =>
    cases processed
    refine held.other nofun nofun fun name listed => ?_
    refine (MetaInfo.getElem?_setValue info _ _ name).trans ?_
    rw [if_neg, Option.or_none]
    rintro rfl
    exact absurd listed (by decide)

/-- **All applications before a place.** -/
theorem made {stage : ℕ} (bound : stage ≤ row.length)
    (made : (ofApplications env row).made (.fresh address page) stage = some info) :
    Held env address page (row.take stage) info := by
  induction stage generalizing info with
  | zero =>
    cases made
    exact fresh env address page
  | succ stage ih =>
    obtain ⟨before, earlier, processed⟩ := Option.bind_eq_some_iff.mp made
    obtain ⟨app, found, processed⟩ := Option.bind_eq_some_iff.mp processed
    obtain ⟨inside, rfl⟩ := List.getElem?_eq_some_iff.mp found
    rw [List.take_succ_eq_append_getElem inside]
    exact (ih (Nat.le_of_lt inside) earlier).transfer.onRequest processed

end Held

/-- **What a page carries** behind a row of applications. -/
structure PageCarried (env : ParserEnv) (address page : Str) (row : List Application)
    (info : MetaInfo) : Prop where
  url : info.url = .ok address
  body : info.body = .ok page
  /-- Behind `html_processor`, the tokens. -/
  text : .html ∈ row → ∃ parser, Parser.feedText env page = some parser ∧
    info.valueAs .strings "text".toList = .ok parser.tokens
  /-- Behind both, in this order, the frequencies of the tokens. -/
  terms : .feature ∈ row → .html ∈ row.takeWhile (· ≠ .feature) → ∃ parser,
    Parser.feedText env page = some parser ∧ HoldsFrequencies info parser.tokens
  /-- A `feature_extractor` before any `html_processor` has counted nothing, for good. -/
  early : .feature ∈ row → .html ∉ row.takeWhile (· ≠ .feature) → HoldsFrequencies info []

/-- What is held, as it is read. -/
theorem PageCarried.of_held {env : ParserEnv} {address page : Str} {row : List Application}
    {info : MetaInfo} (held : Held env address page row info) :
    PageCarried env address page row info := by
  have frequencies : ∀ words, counted (pageTokens env page) row = some words →
      HoldsFrequencies info words := by
    intro words same
    refine ⟨(tally words).toList, ?_, isTally_tally words⟩
    refine (MetaInfo.valueAs_of_packed _ (held.terms.trans (congrArg _ same))).trans ?_
    exact TypeTraits.frequencies.unpack_pack _
  have tokens : .html ∈ row → ∃ parser, Parser.feedText env page = some parser ∧
      pageTokens env page = parser.tokens := by
    intro member
    obtain ⟨parser, fed⟩ := Option.isSome_iff_exists.mp (held.parses member)
    refine ⟨parser, fed, ?_⟩
    rw [pageTokens, fed]
    rfl
  refine ⟨MetaInfo.valueAs_of_packed .string held.url, MetaInfo.valueAs_of_packed .string held.body,
    fun member => ?_, fun feature before => ?_, fun feature before => ?_⟩
  · obtain ⟨parser, fed, same⟩ := tokens member
    refine ⟨parser, fed, ?_⟩
    rw [← same]
    refine (MetaInfo.valueAs_of_packed _ (held.text.trans (if_pos member))).trans ?_
    exact TypeTraits.strings.unpack_pack _
  · obtain ⟨parser, fed, same⟩ := tokens (List.takeWhile_subset _ before)
    refine ⟨parser, fed, frequencies _ ?_⟩
    rw [counted, if_pos feature, if_pos before, same]
  · refine frequencies _ ?_
    rw [counted, if_pos feature, if_neg before]

section Pages

variable {env : ParserEnv} {row : List Application} {actions : List Action} {pool : Running}
  {document : ℕ} {address page : Str}

/-- What stands in a queue carries the page that was accepted. -/
theorem pageCarried_of_entry (run : Run (ofApplications env row).step AnyStep initial actions pool)
    {stage : ℕ} (bound : stage ≤ row.length) {entry : QueueEntry}
    (member : entry ∈ pool.shared.queues stage)
    (accepted : (acceptedInfos actions)[entry.document]? = some (.fresh address page)) :
    PageCarried env address page (row.take stage) entry.info := by
  obtain ⟨first, found, made⟩ := (contents_carried _ actions pool run).1 stage entry member
  rw [accepted] at found
  cases found
  exact .of_held (.made bound made)

/-- A page that was accepted is finished, or stands in a queue. -/
theorem kept_of_accepted (run : Run (ofApplications env row).step AnyStep initial actions pool)
    (accepted : (acceptedInfos actions)[document]? = some (.fresh address page)) :
    (document ∈ pool.shared.finished ∧
        (.html ∈ row → (Parser.feedText env page).isSome = true)) ∨
      ∃ place ≤ row.length, ∃ entry ∈ pool.shared.queues place, entry.document = document := by
  rcases (contents_carried _ actions pool run).2 document _ accepted with
    ⟨done, info, made⟩ | ⟨place, last, entry, member, own, -⟩
  · have held := Held.made (Nat.le_refl _) made
    rw [List.take_length] at held
    exact .inl ⟨done, held.parses⟩
  · exact .inr ⟨place, last, entry, member, own⟩

end Pages

/-- **A page on its way through a row of applications.** In whatever order a configuration puts
them, and however messages are delayed, lost and delivered again: a page that was accepted is
finished, and did parse if a `html_processor` is in the row, or stands in a queue; and what stands
in a queue is the page's URL and body with what the applications before that queue put there. -/
theorem pages_carried (env : ParserEnv) (row : List Application) (actions : List Action)
    (pool : Running) (run : Run (ofApplications env row).step AnyStep initial actions pool)
    (document : ℕ) (address page : Str)
    (accepted : (acceptedInfos actions)[document]? = some (.fresh address page)) :
    (∀ stage ≤ row.length, ∀ entry ∈ pool.shared.queues stage, entry.document = document →
      PageCarried env address page (row.take stage) entry.info) ∧
    ((document ∈ pool.shared.finished ∧
        (.html ∈ row → (Parser.feedText env page).isSome = true)) ∨
      ∃ place ≤ row.length, ∃ entry ∈ pool.shared.queues place, entry.document = document) := by
  refine ⟨?_, kept_of_accepted run accepted⟩
  rintro stage bound entry member rfl
  exact pageCarried_of_entry run bound member accepted

/-- A page of one word, pushed up to the queue of `last_processor`. -/
def oneWord : List Action :=
  [.accept (.fresh ['u'] ['a']), .deliver 0 0, .handler 0, .store 0, .deliver 1 0, .handler 1,
    .store 1]

theorem oneWord_runs : (exec (ofApplications .plain [.html, .feature]).step (fun _ _ => true)
    initial oneWord).isSome = true := by decide +kernel

theorem pages_carried_oneWord :
    (0 ∈ (endState oneWord_runs).shared.finished ∧
        (.html ∈ [Application.html, .feature] → (Parser.feedText .plain ['a']).isSome = true)) ∨
      ∃ place ≤ 2, ∃ entry ∈ (endState oneWord_runs).shared.queues place, entry.document = 0 :=
  (pages_carried .plain [.html, .feature] oneWord (endState oneWord_runs)
    (Run.of_endState (fun _ _ _ => trivial) oneWord_runs) 0 ['u'] ['a'] rfl).2

end Pipeline

end Wookie
