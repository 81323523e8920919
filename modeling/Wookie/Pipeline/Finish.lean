/-
**Every page can be finished.**

The pipeline waits for nothing that cannot happen: whatever was delayed or lost, a page that stands
in a queue can be delivered, pushed to the next queue, and so on to the last application.

* `moves_on` — a document moves from one queue to the next, if its application does not throw.
* `can_finish` — **so it can be finished**, by induction on the applications before it.
* `Held.processes` — the applications of `processors/` do not throw on a page that parses.
* `pages_can_finish` — **from every state a run has reached, all pages accepted can be finished,
  those that do not parse excepted, where a `html_processor` stands in the row.**
-/

import Wookie.Pipeline.Contents

namespace Wookie.Pipeline

open Library

variable {p : Pipeline} {pool pool' : Running} {document place : ℕ} {info after : MetaInfo}

/-! ### From one queue to the next -/

/-- What is finished stays so. -/
theorem finished_step {action : Action} (stepped : p.step pool action = some pool') :
    pool.shared.finished ⊆ pool'.shared.finished := by
  cases action with
  | accept info =>
    cases stepped
    exact List.Subset.refl _
  | deliver stage place =>
    simp only [step] at stepped
    split at stepped
    · obtain ⟨entry, -, rfl⟩ := Option.map_eq_some_iff.mp stepped
      exact List.Subset.refl _
    · cases stepped
  | handler i =>
    obtain ⟨o, next, answer, s', thread, performed, rfl⟩ := Pool.stepThread_spec stepped
    cases o with
    | push url info =>
      obtain ⟨context, -, result⟩ := Option.map_eq_some_iff.mp performed
      cases result
      exact List.Subset.refl _
    | reported n =>
      obtain ⟨message, -, replied⟩ := Option.bind_eq_some_iff.mp performed
      obtain ⟨ok, -, result⟩ := Option.map_eq_some_iff.mp replied
      cases result
      exact List.Subset.refl _
    | ack =>
      obtain ⟨context, -, result⟩ := Option.map_eq_some_iff.mp performed
      cases result
      show pool.shared.finished ⊆
        if context.stage = p.last then context.entry.document :: pool.shared.finished
        else pool.shared.finished
      split
      · exact List.subset_cons_self _ _
      · exact List.Subset.refl _
    | write | error | close =>
      cases performed
      exact List.Subset.refl _
  | store n =>
    obtain ⟨message, -, stepped⟩ := Option.bind_eq_some_iff.mp stepped
    split at stepped
    · cases stepped
    · cases stepped
      exact List.Subset.refl _
  | reply n ok =>
    obtain ⟨message, -, stepped⟩ := Option.bind_eq_some_iff.mp stepped
    split at stepped
    · cases stepped
    · cases stepped
      exact List.Subset.refl _
  | applyAck n =>
    obtain ⟨context, -, rfl⟩ := Option.map_eq_some_iff.mp stepped
    exact List.Subset.refl _

theorem finished_run {actions : List Action} (run : Run p.step AnyStep pool actions pool') :
    pool.shared.finished ⊆ pool'.shared.finished := by
  induction run with
  | nil => exact List.Subset.refl _
  | snoc _ _ stepped ih => exact List.Subset.trans ih (finished_step stepped)

/-- A copy of the document, with this meta information, stands in the queue of the place. -/
def Stands (pool : Running) (document place : ℕ) (info : MetaInfo) : Prop :=
  ∃ entry ∈ pool.shared.queues place, entry.document = document ∧ entry.info = info

/-- **A document is delivered, and its handler asks**: a step of the queue, and one of the handler.
-/
theorem asked {entry : QueueEntry} (bound : place ≤ p.last)
    (member : entry ∈ pool.shared.queues place) {o : PipelineOp}
    {next : PipelineAnswer o → PipelineProgram Unit}
    (program : p.processHandler place entry.info = .op o next) {answer : PipelineAnswer o}
    {s' : PipelineState}
    (performed : p.perform pool.spawned o (p.deliver ⟨place, entry⟩ pool).shared =
      some (answer, s')) :
    ∃ actions pool', Run p.step AnyStep pool actions pool' ∧ acceptedInfos actions = [] ∧
      pool'.shared = s' := by
  obtain ⟨index, found⟩ := List.getElem?_of_mem member
  have first : p.step pool (.deliver place index) = some (p.deliver ⟨place, entry⟩ pool) := by
    simp only [step, if_pos bound, found, Option.map_some]
  have thread : (p.deliver ⟨place, entry⟩ pool).threads pool.spawned = .op o next := by
    simp only [deliver, Pool.spawn, Function.update_self]
    exact program
  have second : p.step (p.deliver ⟨place, entry⟩ pool) (.handler pool.spawned) = some _ :=
    Pool.stepThread_eq thread performed
  exact ⟨_, _, (Run.nil.snoc trivial first).snoc trivial second, rfl, rfl⟩

/-- The handler's own request, after its delivery. -/
theorem context_of_deliver (context : HandlerContext) :
    (p.deliver context pool).shared.contexts pool.spawned = some context := by
  simp only [deliver, Pool.spawn, Function.update_self]

/-- The first question of a handler that pushes. -/
theorem push_asks {url : Str} (named : after.url = .ok url) :
    ∃ next, push after = .op (.push url after) next := by
  unfold push
  rw [named]
  exact ⟨_, rfl⟩

/-- **A document moves on** to the next queue, if its application does not throw. -/
theorem moves_on (before : place < p.last) (stands : Stands pool document place info)
    (processed : p.process place info = some after) {url : Str} (named : after.url = .ok url) :
    ∃ actions pool', Run p.step AnyStep pool actions pool' ∧ acceptedInfos actions = [] ∧
      Stands pool' document (place + 1) after := by
  obtain ⟨entry, member, rfl, rfl⟩ := stands
  obtain ⟨next, asks⟩ := push_asks named
  have program : p.processHandler place entry.info = .op (.push url after) next := by
    simp only [processHandler, if_neg (Nat.ne_of_lt before), processed, asks]
  let message : PushMessage := ⟨place + 1, entry.document, after, false, none⟩
  have performed : p.perform pool.spawned (.push url after)
      (p.deliver ⟨place, entry⟩ pool).shared = some (pool.shared.pushes.length,
        { (p.deliver ⟨place, entry⟩ pool).shared with
          pushes := pool.shared.pushes ++ [message]
          log := .pushed pool.spawned :: pool.shared.log }) := by
    simp only [perform, context_of_deliver, Option.map_some]
    rfl
  obtain ⟨actions, pool', run, none, same⟩ :=
    asked (Nat.le_of_lt before) member program performed
  -- the push reaches its queue
  have found : pool'.shared.pushes[pool.shared.pushes.length]? = some message := by
    rw [same]
    exact List.getElem?_concat_length
  have stored : p.step pool' (.store pool.shared.pushes.length) =
      some { pool' with shared := store pool.shared.pushes.length message pool'.shared } := by
    simp only [step, found, Option.bind_some]
    rfl
  refine ⟨actions ++ [.store pool.shared.pushes.length], _, run.snoc trivial stored, ?_,
    ⟨entry.document, pool'.shared.serials, after⟩, ?_, rfl, rfl⟩
  · rw [acceptedInfos_append, none]
    rfl
  · simp [store, PipelineState.enqueue, message]

/-- **The last application finishes a document.** -/
theorem finishes (stands : Stands pool document p.last info) {url : Str}
    (named : info.url = .ok url) :
    ∃ actions pool', Run p.step AnyStep pool actions pool' ∧ acceptedInfos actions = [] ∧
      document ∈ pool'.shared.finished := by
  obtain ⟨entry, member, rfl, rfl⟩ := stands
  obtain ⟨next, program⟩ : ∃ next, p.processHandler p.last entry.info = .op .ack next := by
    unfold processHandler
    rw [if_pos rfl, named]
    exact ⟨_, rfl⟩
  have performed : p.perform pool.spawned .ack (p.deliver ⟨p.last, entry⟩ pool).shared =
      some ((), { (p.deliver ⟨p.last, entry⟩ pool).shared with
        acks := pool.shared.acks ++ [⟨p.last, entry⟩]
        finished := entry.document :: pool.shared.finished
        log := .acked pool.spawned :: pool.shared.log }) := by
    simp only [perform, context_of_deliver, Option.map_some, if_true]
    rfl
  obtain ⟨actions, pool', run, none, same⟩ := asked (Nat.le_refl _) member program performed
  refine ⟨actions, pool', run, none, ?_⟩
  rw [same]
  exact List.mem_cons_self

/-! ### To the last application -/

/-- **A document in a queue can be finished**, where no application throws on it. The induction is
on the applications before it. -/
theorem stands_can_finish {first : MetaInfo}
    (made : ∀ stage ≤ p.last, ∃ info url, p.made first stage = some info ∧ info.url = .ok url)
    (left : ℕ) (before : place + left = p.last) (stands : Stands pool document place info)
    (own : p.made first place = some info) :
    ∃ actions pool', Run p.step AnyStep pool actions pool' ∧ acceptedInfos actions = [] ∧
      document ∈ pool'.shared.finished := by
  induction left generalizing place info pool with
  | zero =>
    have last : place = p.last := before
    subst last
    obtain ⟨info', url, same, named⟩ := made p.last (Nat.le_refl _)
    rw [own] at same
    cases same
    exact finishes stands named
  | succ left ih =>
    obtain ⟨after, url, next, named⟩ := made (place + 1) (by omega)
    have processed : p.process place info = some after := by
      rw [Pipeline.made, own] at next
      exact next
    obtain ⟨actions, middle, run, none, stands⟩ := moves_on (by omega) stands processed named
    obtain ⟨more, pool', later, still, finished⟩ := ih (by omega) stands next
    exact ⟨actions ++ more, pool', run.trans later, by rw [acceptedInfos_append, none, still]; rfl,
      finished⟩

/-- **A document that was accepted can be finished**, where no application throws on it. -/
theorem can_finish {actions : List Action} (run : Run p.step AnyStep initial actions pool)
    {first : MetaInfo} (accepted : (acceptedInfos actions)[document]? = some first)
    (made : ∀ stage ≤ p.last, ∃ info url, p.made first stage = some info ∧ info.url = .ok url) :
    ∃ more pool', Run p.step AnyStep pool more pool' ∧ acceptedInfos more = [] ∧
      document ∈ pool'.shared.finished := by
  rcases (contents_carried p actions pool run).2 document first accepted with
    ⟨done, -⟩ | ⟨place, bound, entry, member, own, same⟩
  · exact ⟨[], pool, .nil, rfl, done⟩
  · exact stands_can_finish made (p.last - place) (by omega) ⟨entry, member, own, rfl⟩ same

/-! ### Pages -/

section Pages

variable {env : ParserEnv} {row : List Application} {address page : Str}

/-- **The applications do not throw** on what a page that parses carries. -/
theorem Held.processes {seen : List Application} (held : Held env address page seen info)
    (app : Application) (parses : app = .html → (Parser.feedText env page).isSome = true) :
    ∃ after, app.onRequest env info = some after := by
  have url : info.url = .ok address := MetaInfo.valueAs_of_packed .string held.url
  have body : info.body = .ok page := MetaInfo.valueAs_of_packed .string held.body
  cases app with
  | first => exact ⟨info, rfl⟩
  | html =>
    obtain ⟨parser, fed⟩ := Option.isSome_iff_exists.mp (parses rfl)
    exact ⟨_, htmlProcessor_eq url body fed⟩
  | feature => exact ⟨_, featureExtractor_eq url held.words⟩
  | stub => exact ⟨_, rfl⟩

/-- **Every application makes something of a page that parses.** -/
theorem made_of_parses (parses : .html ∈ row → (Parser.feedText env page).isSome = true)
    (stage : ℕ) (bound : stage ≤ row.length) :
    ∃ info, (ofApplications env row).made (.fresh address page) stage = some info := by
  induction stage with
  | zero => exact ⟨_, rfl⟩
  | succ stage ih =>
    obtain ⟨info, made⟩ := ih (Nat.le_of_lt bound)
    obtain ⟨after, processed⟩ := (Held.made (Nat.le_of_lt bound) made).transfer.processes row[stage]
      fun same => parses (same ▸ List.getElem_mem bound)
    refine ⟨after, ?_⟩
    rw [Pipeline.made, made]
    show (row[stage]?.bind _) = some after
    rw [List.getElem?_eq_getElem bound]
    exact processed

variable {actions : List Action}

/-- **A page that parses can be finished.** -/
theorem page_can_finish (run : Run (ofApplications env row).step AnyStep initial actions pool)
    (accepted : (acceptedInfos actions)[document]? = some (.fresh address page))
    (parses : .html ∈ row → (Parser.feedText env page).isSome = true) :
    ∃ more pool', Run (ofApplications env row).step AnyStep pool more pool' ∧
      acceptedInfos more = [] ∧ document ∈ pool'.shared.finished := by
  refine can_finish run accepted fun stage bound => ?_
  obtain ⟨info, made⟩ := made_of_parses parses stage bound
  exact ⟨info, address, made, MetaInfo.valueAs_of_packed .string (Held.made bound made).url⟩

/-- And a page that is finished did parse. -/
theorem parses_of_finished (run : Run (ofApplications env row).step AnyStep initial actions pool)
    (accepted : (acceptedInfos actions)[document]? = some (.fresh address page))
    (done : document ∈ pool.shared.finished) (member : .html ∈ row) :
    (Parser.feedText env page).isSome = true := by
  obtain ⟨_, carried⟩ := Carried.of_run run
  obtain ⟨info, first, found, made⟩ := carried.finished document done
  rw [accepted] at found
  cases found
  have held := Held.made (Nat.le_refl _) made
  rw [List.take_length] at held
  exact held.parses member

/-- **And so can all of them**, one after the other. -/
theorem all_can_finish (run : Run (ofApplications env row).step AnyStep initial actions pool)
    (n : ℕ) :
    ∃ more pool', Run (ofApplications env row).step AnyStep pool more pool' ∧
      acceptedInfos more = [] ∧ ∀ document < n, ∀ address page,
        (acceptedInfos actions)[document]? = some (.fresh address page) →
        (.html ∈ row → (Parser.feedText env page).isSome = true) →
        document ∈ pool'.shared.finished := by
  induction n with
  | zero => exact ⟨[], pool, .nil, rfl, fun _ none => absurd none (Nat.not_lt_zero _)⟩
  | succ n ih =>
    obtain ⟨more, middle, on, none, finished⟩ := ih
    by_cases this : ∃ address page, (acceptedInfos actions)[n]? = some (.fresh address page) ∧
        (.html ∈ row → (Parser.feedText env page).isSome = true)
    · obtain ⟨address, page, accepted, parses⟩ := this
      have still : (acceptedInfos (actions ++ more))[n]? = some (.fresh address page) := by
        rwa [acceptedInfos_append, none, List.append_nil]
      obtain ⟨rest, pool', later, none', done⟩ := page_can_finish (run.trans on) still parses
      refine ⟨more ++ rest, pool', on.trans later, ?_,
        fun document bound address page own can => ?_⟩
      · rw [acceptedInfos_append, none, none']
        rfl
      · rcases Nat.lt_succ_iff_lt_or_eq.mp bound with before | rfl
        · exact finished_run later (finished document before address page own can)
        · exact done
    · refine ⟨more, middle, on, none, fun document bound address page own can => ?_⟩
      rcases Nat.lt_succ_iff_lt_or_eq.mp bound with before | rfl
      · exact finished document before address page own can
      · exact absurd ⟨address, page, own, can⟩ this

end Pages

/-- **Every page can be finished, unless an application throws on it.** From every state a run has
reached, whatever was delayed, lost or delivered again on the way, the pipeline can go on, without
another document, to a state where of the pages accepted exactly those are finished that parse, and
all of them if no `html_processor` stands in the row. -/
theorem pages_can_finish (env : ParserEnv) (row : List Application) (actions : List Action)
    (pool : Running) (run : Run (ofApplications env row).step AnyStep initial actions pool) :
    ∃ more pool', Run (ofApplications env row).step AnyStep pool more pool' ∧
      acceptedInfos more = [] ∧ ∀ document address page,
        (acceptedInfos actions)[document]? = some (.fresh address page) →
        (document ∈ pool'.shared.finished ↔
          (.html ∈ row → (Parser.feedText env page).isSome = true)) := by
  obtain ⟨more, pool', on, none, finished⟩ := all_can_finish run (acceptedInfos actions).length
  refine ⟨more, pool', on, none, fun document address page own => ⟨fun done => ?_, ?_⟩⟩
  · have still : (acceptedInfos (actions ++ more))[document]? = some (.fresh address page) := by
      rwa [acceptedInfos_append, none, List.append_nil]
    exact parses_of_finished (run.trans on) still done
  · obtain ⟨bound, -⟩ := List.getElem?_eq_some_iff.mp own
    exact finished document bound address page own

theorem pages_can_finish_oneWord : ∃ more pool',
    Run (ofApplications .plain [.html, .feature]).step AnyStep (endState oneWord_runs) more pool' ∧
      0 ∈ pool'.shared.finished := by
  obtain ⟨more, pool', on, -, exact⟩ := pages_can_finish .plain [.html, .feature] oneWord
    (endState oneWord_runs) (Run.of_endState (fun _ _ _ => trivial) oneWord_runs)
  exact ⟨more, pool', on, (exact 0 ['u'] ['a'] rfl).mpr fun _ => by decide +kernel⟩

end Wookie.Pipeline
