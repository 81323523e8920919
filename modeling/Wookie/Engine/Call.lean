/-
**One call of `process_reply`, on its own.**

No other thread handles a completion while the call runs. The page cache is what it answers when a
URL is looked up, each URL at most once; the clock and the results of writes may be anything.

* `Surroundings.server` — what answers the questions of the call.
* `EngineData.newLinks` — the links that are requested: followed, not in flight, and the first to
  lead to their URL.
* `EngineData.callProcessReply_eq` — **what the call does, in full**: the processors see the page,
  every requested link has its outcome, and a file the cache cannot read ends the loop.
-/

import Wookie.Engine.System
import Wookie.Library.Firsts
import Wookie.Library.Serve

namespace Wookie

open Library

variable {Url : Type}

/-- What a call finds around it. -/
structure Surroundings where
  pageCache : Str → Option DataPointer
  /-- The clock, at the n-th time it is asked. -/
  clock : ℕ → DnetTime
  /-- The asynchronous result of the n-th write. -/
  result : ℕ → ℕ

/-- What a call leaves behind. -/
structure Call (Url : Type) where
  inflight : Std.TreeMap Str Document
  /-- How often the clock and the storage were asked. -/
  asked : ℕ
  /-- What the engine did to its surroundings, oldest first. -/
  log : List (EngineEvent Url)

/-- **What answers the questions of a call.** -/
def Surroundings.server (around : Surroundings) : Server (@EngineAnswer Url) (Call Url)
  | .currentTime, call => (around.clock call.asked, { call with asked := call.asked + 1 })
  | .insertInflight key doc, call =>
    (!call.inflight.contains key, { call with inflight := call.inflight.insertIfNew key doc })
  | .eraseInflight key, call =>
    (call.inflight[key]?.getD (Document.new (around.clock call.asked)),
      { call with inflight := call.inflight.erase key, asked := call.asked + 1 })
  | .writeDocument _, call => (around.result call.asked, { call with asked := call.asked + 1 })
  | .wait _, call => ((), call)
  | .readData key, call => (around.pageCache key, call)
  | .feed url doc, call => ((), { call with log := call.log ++ [.fed ⟨url, doc, .link⟩] })
  | .processing reply data, call => ((), { call with log := call.log ++ [.processing reply data] })
  | .process functor reply data type, call =>
    ((), { call with log := call.log ++ [.processed functor reply data type] })

/-- The calls of functors, one after the other. -/
def processedBy (functors : List ProcessFunctor) (reply : Response Url) (data : Str)
    (type : DocumentType) : List (EngineEvent Url) :=
  functors.map fun functor => .processed functor reply data type

namespace EngineData

variable (e : EngineData Url) (around : Surroundings) (reply : Response Url) (data : Str)

/-- The call of `process_reply`: what it returns, and what it leaves. -/
def callProcessReply (inflight : Std.TreeMap Str Document) : Option Unit × Call Url :=
  (e.processReply reply data).serve around.server ⟨inflight, 0, []⟩

/-! ### What a link leads to -/

/-- The URL of a link, as the in-flight map and the page cache know it. -/
def linkKey (link : Str) : Str := e.swarm.toString (e.requestUrl reply link)

/-- The loop comes to the in-flight test. -/
def kept (link : Str) : Bool := !e.skipped reply link && e.urlOk reply link

/-- What the loop does with the outcome of a look-up: nothing if the file is unreadable, or fresh.
-/
def readEvents (requestUrl : Url) : Option DataPointer → List (EngineEvent Url)
  | none => [.fed ⟨requestUrl, none, .link⟩]
  | some file =>
    match unpackDocument file with
    | .error _ => []
    | .ok doc =>
      if doc.ts.before e.generationTime then
        .fed ⟨requestUrl, some doc, .link⟩ ::
          if reply.code ≠ notModified then processedBy e.processors reply data .documentCache
          else []
      else []

/-- There is no file, or one that can be read. -/
def fileReadable : Option DataPointer → Bool
  | none => true
  | some file => (unpackDocument file).toOption.isSome

/-- What the loop does for a requested link. -/
def linkEvents (link : Str) : List (EngineEvent Url) :=
  e.readEvents reply data (e.requestUrl reply link) (around.pageCache (e.linkKey reply link))

/-- The file of the link can be read. -/
def readable (link : Str) : Bool := fileReadable (around.pageCache (e.linkKey reply link))

/-- The links that are requested, where `taken` says what is in flight. -/
def newLinks (taken : Str → Bool) (links : List Str) : List Str :=
  firsts (e.kept reply) (e.linkKey reply) taken links

/-- What the loop does for all of them. -/
def loopEvents (links : List Str) : List (EngineEvent Url) :=
  (links.takeWhile (e.readable around reply)).flatMap (e.linkEvents around reply data)

variable {e around reply data}

/-- **The three outcomes of a look-up.** -/
theorem readEvents_cases (requestUrl : Url) (answer : Option DataPointer) :
    (answer = none ∧ e.readEvents reply data requestUrl answer = [.fed ⟨requestUrl, none, .link⟩]) ∨
    (∃ file doc, answer = some file ∧ unpackDocument file = .ok doc ∧
      doc.ts.before e.generationTime = true ∧
      e.readEvents reply data requestUrl answer = .fed ⟨requestUrl, some doc, .link⟩ ::
        if reply.code ≠ notModified then processedBy e.processors reply data .documentCache
        else []) ∨
    (e.requestsAfter answer = false ∧ e.readEvents reply data requestUrl answer = []) := by
  cases answer with
  | none => exact .inl ⟨rfl, rfl⟩
  | some file =>
    refine .inr ?_
    simp only [readEvents]
    rcases e.read_cases file with ⟨_, unreadable⟩ | ⟨doc, unpacked, old⟩ | ⟨doc, unpacked, fresh⟩
    · exact .inr ⟨requestsAfter_error unreadable, by rw [unreadable]⟩
    · exact .inl ⟨file, doc, rfl, unpacked, old, by simp only [unpacked, old, if_true]⟩
    · exact .inr ⟨requestsAfter_fresh unpacked fresh, by simp [unpacked, fresh]⟩

/-! ### The run of the call -/

/-- What is in flight, and what was done so far. -/
structure Shows (taken : Str → Bool) (log : List (EngineEvent Url)) (call : Call Url) : Prop where
  inflight : ∀ key, call.inflight.contains key = taken key
  log : call.log = log

variable {taken : Str → Bool} {log : List (EngineEvent Url)} {call : Call Url} {link : Str}
  {thrown final : Call Url → Prop}

theorem adheres_callAll (shows_ : Shows taken log call) (functors : List ProcessFunctor)
    (type : DocumentType) :
    Adheres around.server.typestate thrown
      (Shows taken (log ++ processedBy functors reply data type)) call
      (callAll functors reply data type) := by
  induction functors generalizing call log with
  | nil =>
    rw [processedBy, List.map_nil, List.append_nil]
    exact shows_
  | cons functor rest ih =>
    rw [processedBy, List.map_cons, List.append_cons]
    exact adheres_op (ih ⟨shows_.inflight, congrArg (· ++ _) shows_.log⟩)

/-- The processors are called unless the reply is a `304`. -/
theorem adheres_callModified (shows_ : Shows taken log call) (type : DocumentType) :
    Adheres around.server.typestate thrown
      (Shows taken (log ++
        if reply.code ≠ notModified then processedBy e.processors reply data type else []))
      call
      (if reply.code ≠ notModified then callAll e.processors reply data type else .pure ()) := by
  split
  · exact adheres_callAll shows_ e.processors type
  · rw [List.append_nil]
    exact shows_

/-- An insertion into the in-flight map. -/
theorem contains_insertIfNew {inflight : Std.TreeMap Str Document}
    (same : ∀ key, inflight.contains key = taken key) (inserted : Str) (doc : Document)
    (key : Str) :
    (inflight.insertIfNew inserted doc).contains key = (taken key || key == inserted) := by
  rw [Std.TreeMap.contains_insertIfNew, same, Bool.or_comm]
  congr 1
  rw [Bool.eq_iff_iff, beq_iff_eq, beq_iff_eq, Std.compare_eq_iff_eq, eq_comm]

/-- What is in flight already is inserted once more, to no effect. -/
theorem Shows.insert_again (shows_ : Shows taken log call) {inserted : Str}
    (held : taken inserted = true) (doc : Document) :
    Shows taken log { call with inflight := call.inflight.insertIfNew inserted doc } := by
  refine ⟨fun key => ?_, shows_.log⟩
  rw [contains_insertIfNew shows_.inflight]
  by_cases same : key = inserted
  · rw [same, held, Bool.true_or]
  · rw [beq_false_of_ne same, Bool.or_false]

/-- The log goes on. -/
theorem Shows.append (shows_ : Shows taken log call) (events : List (EngineEvent Url)) :
    Shows taken (log ++ events) { call with log := call.log ++ events } :=
  ⟨shows_.inflight, congrArg (· ++ events) shows_.log⟩

/-- **The outcome of a look-up** that can be read. -/
theorem adheres_readFinished (shows_ : Shows taken log call) {requestUrl : Url}
    (inserted : taken (e.swarm.toString requestUrl) = true) {answer : Option DataPointer}
    (reads : fileReadable answer = true) :
    Adheres around.server.typestate thrown
      (Shows taken (log ++ e.readEvents reply data requestUrl answer))
      call (e.readFinished reply data requestUrl answer) := by
  cases answer with
  | none => exact adheres_op (shows_.append _)
  | some file =>
    rw [readEvents]
    rcases e.read_cases file with ⟨_, unreadable⟩ | ⟨doc, unpacked, old⟩ | ⟨doc, unpacked, fresh⟩
    · rw [fileReadable, unreadable] at reads
      cases reads
    · rw [readFinished_stale unpacked old, unpacked]
      simp only [old, if_true]
      rw [List.append_cons]
      exact adheres_op (adheres_op
        (adheres_callModified ((shows_.insert_again inserted doc).append _) .documentCache))
    · rw [readFinished_fresh unpacked fresh, unpacked]
      simp only [fresh, Bool.false_eq_true, if_false]
      rw [List.append_nil]
      exact shows_

/-- A file that cannot be read ends the call. -/
theorem adheres_readFinished_throw {requestUrl : Url} {answer : Option DataPointer}
    (fails : fileReadable answer = false) (throws : thrown call) :
    Adheres around.server.typestate thrown final call
      (e.readFinished reply data requestUrl answer) := by
  cases answer with
  | none => cases fails
  | some file =>
    rcases e.read_cases file with ⟨_, unreadable⟩ | ⟨doc, unpacked, old⟩ | ⟨doc, unpacked, fresh⟩
    · rw [readFinished_error unreadable]
      exact throws
    · rw [fileReadable, unpacked] at fails
      cases fails
    · rw [fileReadable, unpacked] at fails
      cases fails

/-- A link that is followed comes to the in-flight test. -/
theorem followLink_of_kept (kept : e.kept reply link = true) :
    e.followLink reply data link = e.requestLink reply data (e.requestUrl reply link) := by
  rw [EngineData.kept, Bool.and_eq_true, Bool.not_eq_true'] at kept
  rw [followLink, if_neg (by rw [kept.1]; exact Bool.false_ne_true), if_pos kept.2]

/-- A link that is not followed is passed over. -/
theorem followLink_of_not_kept (dropped : e.kept reply link = false) :
    e.followLink reply data link = .pure () := by
  rw [EngineData.kept, Bool.and_eq_false_iff, Bool.not_eq_false'] at dropped
  unfold followLink
  split
  · rfl
  · rename_i kept
    rw [if_neg fun ok => ?_]
    rcases dropped with skipped | filtered
    · exact kept skipped
    · rw [filtered] at ok
      cases ok

/-- **A link that is requested**, up to the look-up. -/
theorem adheres_requestLink (shows_ : Shows taken log call)
    (new : taken (e.linkKey reply link) = false)
    (goesOn : ∀ after, Shows (fun key => taken key || key == e.linkKey reply link) log after →
      Adheres around.server.typestate thrown final after
        (e.readFinished reply data (e.requestUrl reply link)
          (around.pageCache (e.linkKey reply link)))) :
    Adheres around.server.typestate thrown final call
      (e.requestLink reply data (e.requestUrl reply link)) := by
  have absent : call.inflight.contains (e.linkKey reply link) = false :=
    (shows_.inflight _).trans new
  refine adheres_op (adheres_op ?_)
  show Adheres _ _ _ _ (if !call.inflight.contains (e.linkKey reply link) then _ else _)
  rw [absent]
  exact adheres_op (goesOn _ ⟨contains_insertIfNew shows_.inflight _ _, shows_.log⟩)

/-- **A link that is not requested** changes nothing. -/
theorem adheres_followLink_old (shows_ : Shows taken log call)
    (old : (e.kept reply link && !taken (e.linkKey reply link)) = false) :
    Adheres around.server.typestate thrown (Shows taken log) call
      (e.followLink reply data link) := by
  cases kept : e.kept reply link with
  | false =>
    rw [followLink_of_not_kept kept]
    exact shows_
  | true =>
    rw [kept, Bool.true_and, Bool.not_eq_false'] at old
    have present : call.inflight.contains (e.linkKey reply link) = true :=
      (shows_.inflight _).trans old
    rw [followLink_of_kept kept]
    refine adheres_op (adheres_op ?_)
    show Adheres _ _ _ _ (if !call.inflight.contains (e.linkKey reply link) then _ else _)
    rw [present]
    have again := shows_.insert_again old (Document.new (around.clock call.asked))
    exact ⟨again.inflight, again.log⟩

/-- **The link loop**: every requested link has its outcome, up to the first whose file cannot be
read. -/
theorem adheres_links (shows_ : Shows taken log call) (links : List Str) :
    Adheres around.server.typestate
      (fun after => (e.newLinks reply taken links).all (e.readable around reply) = false ∧
        after.log = log ++ e.loopEvents around reply data (e.newLinks reply taken links))
      (fun after => (e.newLinks reply taken links).all (e.readable around reply) = true ∧
        after.log = log ++ e.loopEvents around reply data (e.newLinks reply taken links))
      call (Program.forEach links (e.followLink reply data)) := by
  induction links generalizing taken log call with
  | nil => exact ⟨rfl, by rw [shows_.log, loopEvents, newLinks]; exact (List.append_nil _).symm⟩
  | cons link rest ih =>
    rw [newLinks, firsts]
    cases new : e.kept reply link && !taken (e.linkKey reply link) with
    | false =>
      exact (adheres_followLink_old shows_ new).bind fun _ after shown => ih shown
    | true =>
      obtain ⟨kept, free⟩ := Bool.and_eq_true_iff.mp new
      rw [Bool.not_eq_true'] at free
      rw [if_pos rfl, loopEvents, List.all_cons, List.takeWhile_cons]
      show Adheres _ _ _ _ ((e.followLink reply data link).bind fun _ => _)
      rw [followLink_of_kept kept]
      cases reads : e.readable around reply link with
      | false =>
        have ends : Adheres around.server.typestate
            (fun after => false = false ∧ after.log = log ++ []) (fun _ => False) call
            (e.requestLink reply data (e.requestUrl reply link)) := by
          refine adheres_requestLink shows_ free fun after shown => ?_
          refine adheres_readFinished_throw reads ⟨rfl, ?_⟩
          rw [shown.log, List.append_nil]
        exact ends.bind fun _ _ never => never.elim
      | true =>
        rw [if_pos rfl, List.flatMap_cons, ← List.append_assoc, Bool.true_and]
        refine Adheres.bind (adheres_requestLink shows_ free fun after shown =>
          adheres_readFinished shown ?_ reads) fun _ after shown => ih shown
        exact (Bool.or_eq_true _ _).mpr (.inr (beq_self_eq_true _))

theorem adheres_storeRedirected (shows_ : Shows taken log call) (ts : DnetTime) :
    Adheres around.server.typestate thrown (Shows taken log) call
      (e.storeRedirected reply data ts) := by
  unfold storeRedirected
  split
  · exact adheres_op ⟨shows_.inflight, shows_.log⟩
  · exact shows_

/-- Waiting for the writes changes nothing. -/
theorem adheres_waits (results : List ℕ) (ended : final call) :
    Adheres around.server.typestate thrown final call
      (Program.forEach results fun result => EngineOp.ask (.wait result)) :=
  Adheres.forEach (fun _ _ _ held => adheres_op held) ended

/-- What an accepted page comes to. -/
def pageEvents (e : EngineData Url) (around : Surroundings) (reply : Response Url) (data : Str)
    (inflight : Std.TreeMap Str Document) : List (EngineEvent Url) :=
  [.processing reply data] ++
    (if reply.code ≠ notModified then processedBy e.processors reply data .documentNew else []) ++
    e.loopEvents around reply data (e.newLinks reply inflight.contains (e.links reply data))

/-- **What the call does, in full**, for a page the filters accept. It ends by an exception if a
requested link has a file that cannot be read. -/
theorem callProcessReply_eq (accepted : e.acceptedByFilters reply data = true)
    (around : Surroundings) (inflight : Std.TreeMap Str Document) :
    (e.callProcessReply around reply data inflight).1.isSome =
        (e.newLinks reply inflight.contains (e.links reply data)).all (e.readable around reply) ∧
      (e.callProcessReply around reply data inflight).2.log =
        e.pageEvents around reply data inflight := by
  have adheres : Adheres around.server.typestate
      (fun after => (e.newLinks reply inflight.contains (e.links reply data)).all
        (e.readable around reply) = false ∧ after.log = e.pageEvents around reply data inflight)
      (fun after => (e.newLinks reply inflight.contains (e.links reply data)).all
        (e.readable around reply) = true ∧ after.log = e.pageEvents around reply data inflight)
      ⟨inflight, 0, []⟩ (e.processReply reply data) := by
    refine adheres_op (adheres_op (adheres_op ?_))
    have entered : Shows inflight.contains [.processing reply data]
        (⟨inflight, 2, [.processing reply data]⟩ : Call Url) := ⟨fun _ => rfl, rfl⟩
    refine (adheres_storeRedirected entered _).bind fun more after shown => ?_
    refine Adheres.bind ?_ fun _ _ ended => adheres_waits _ ended
    rw [processAccepted, if_pos accepted]
    exact (adheres_callModified shown .documentNew).bind fun _ after shown =>
      adheres_links shown (e.links reply data)
  rcases adheres.serve with ⟨some, all, log⟩ | ⟨none, some, log⟩
  · exact ⟨some.trans all.symm, log⟩
  · exact ⟨(congrArg Option.isSome none).trans some.symm, log⟩

end EngineData

end Wookie
