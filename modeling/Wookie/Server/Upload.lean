/-
**Uploads: `on_upload` of `httpserver/server.cpp`.**

An upload writes its document, and once that is done prepares the document's indexes and sets them.
`Server.step` interleaves any number of uploads: a thread's step is one storage operation taking
effect, or the answer being sent; the callback that waits for it then runs up to its next operation.
Storage operations succeed.

* `Stage` — where an upload stands; `stepThread_stage` gives what each stage's step does.
* `Consistent` — every object holds the document of the upload that wrote it last, and the indexes
  of that document unless the upload has still to set them.
* `indexes_match` — **in a run where no upload sets its indexes over those of a later document, the
  indexes match the content once all uploads are answered.**
* `indexes_mismatch` — two uploads whose index updates take effect in the other order.
-/

import Wookie.Library.Pool
import Wookie.Search.Store

namespace Wookie

open Library

/-! ### The handler -/

/-- `swarm::http_response::status_type`. -/
abbrev Status := ℕ

/-- A `/upload` request as `checked` sees it. -/
structure UploadRequest where
  verdict : Status
  noauthAll : Bool
  baseIndex : Option Str
  name : Option Str
  buffer : Str
  /-- The time at which `m_doc` was made. -/
  now : DnetTime
  deriving DecidableEq

/-- The questions of the handler. -/
inductive UploadOp
  | writeData (key : Str) (data : DataPointer)
  | setIndexes (key : Str) (indexes : List (Str × DataPointer))
  | sendReply (code : Status)

/-- The answers: the storage operations end with an error code or none. -/
def UploadAnswer : UploadOp → Type
  | .writeData _ _ => Option Int
  | .setIndexes _ _ => Option Int
  | .sendReply _ => Unit

/-- The callbacks of an upload. -/
abbrev UploadProgram := Program UploadAnswer Unit

namespace Upload

/-- `send_reply`. -/
def sendReply (code : Status) : UploadProgram := .op (.sendReply code) .pure

/-- `on_index_update_finished`. -/
def onIndexUpdateFinished (error : Option Int) : UploadProgram :=
  if error.isSome then sendReply 503 else sendReply 200

/-- `on_write_finished_update_index`. -/
def onWriteFinishedUpdateIndex (loc : Locale) (doc : Document) (baseIndex : Str)
    (error : Option Int) : UploadProgram :=
  if error.isSome then sendReply 503
  else
    let prepared := doc.prepareIndexes loc baseIndex
    if prepared.isEmpty then sendReply 200
    else .op (.setIndexes doc.key prepared) onIndexUpdateFinished

/-- `checked`. -/
def checked (loc : Locale) (req : UploadRequest) : UploadProgram :=
  if req.verdict ≠ 200 && !req.noauthAll then sendReply req.verdict
  else
    match req.baseIndex, req.name with
    | some baseIndex, some name =>
      let doc : Document := { Document.new req.now with data := req.buffer, key := name }
      .op (.writeData doc.key (packDocument doc)) (onWriteFinishedUpdateIndex loc doc baseIndex)
    | _, _ => sendReply 400

/-- What an accepted request uploads. -/
def update (req : UploadRequest) : Option Update :=
  if req.verdict ≠ 200 && !req.noauthAll then none
  else
    match req.baseIndex, req.name with
    | some baseIndex, some name => some ⟨name, req.buffer, req.now, baseIndex⟩
    | _, _ => none

end Upload

/-! ### The server -/

/-- The storage. `writer` remembers which upload wrote an object's content. -/
structure Storage where
  content : RawId → Option DataPointer
  indexes : Indexes
  writer : RawId → Option ℕ

/-- A storage operation takes effect, or an answer is sent. -/
def UploadOp.perform (ell : Elliptics) (i : ℕ) :
    (o : UploadOp) → Storage → Option (UploadAnswer o × Storage)
  | .writeData key data, s =>
    some (none, { s with
      content := Function.update s.content (ell.transform key) (some data)
      writer := Function.update s.writer (ell.transform key) (some i) })
  | .setIndexes key indexes, s =>
    some (none, { s with indexes := Wookie.setIndexes ell s.indexes key indexes })
  | .sendReply _, s => some ((), s)

/-- The server: the uploads' callbacks over the storage, and the requests they serve. -/
structure Server where
  pool : Pool UploadAnswer Storage
  requests : ℕ → Option UploadRequest

/-- An event of the server. -/
inductive ServerEvent
  | upload (req : UploadRequest)
  | thread (i : ℕ)

namespace Server

/-- The server before any upload. -/
def new : Server where
  pool :=
    { shared := ⟨fun _ => none, fun _ => [], fun _ => none⟩
      threads := fun _ => .pure ()
      spawned := 0 }
  requests _ := none

/-- One step: a request comes in, or an upload goes on. -/
def step (loc : Locale) (ell : Elliptics) (s : Server) : ServerEvent → Option Server
  | .upload req =>
    some {
      pool := s.pool.spawn (Upload.checked loc req)
      requests := Function.update s.requests s.pool.spawned (some req) }
  | .thread i =>
    (s.pool.stepThread (UploadOp.perform ell) i).map fun pool => { s with pool := pool }

/-- The upload's callbacks have ended. -/
def ended : UploadProgram → Bool
  | .pure _ => true
  | _ => false

/-- All uploads have been answered. -/
def Answered (s : Server) : Prop := ∀ i < s.pool.spawned, ended (s.pool.threads i) = true

/-- What upload `i` stores. -/
def upload (s : Server) (i : ℕ) : Option Update := (s.requests i).bind Upload.update

/-- An object holds the document of the upload that wrote it last, and exactly the indexes prepared
from that document under the upload's base index. -/
structure ObjectMatches (loc : Locale) (ell : Elliptics) (s : Server) (id : RawId)
    (update : Update) : Prop where
  object : ell.transform update.key = id
  content : s.pool.shared.content id =
    some (packDocument ⟨update.ts, update.key, update.content⟩)
  indexes : s.pool.shared.indexes id = update.indexSet loc ell

/-- **The indexes match the content** of every object. -/
structure IndexesMatch (loc : Locale) (ell : Elliptics) (s : Server) : Prop where
  unwritten : ∀ id, s.pool.shared.writer id = none →
    s.pool.shared.content id = none ∧ s.pool.shared.indexes id = []
  written : ∀ id i, s.pool.shared.writer id = some i →
    ∃ update, s.upload i = some update ∧ ObjectMatches loc ell s id update

/-! ### The order of the index updates -/

/-- The upload waits for its index update. -/
def indexing : UploadProgram → Bool
  | .op (.setIndexes _ _) _ => true
  | _ => false

/-- **The step comes in order.** An index update takes effect only while its upload's document is
the one stored, or the upload that stored it has still to set its own indexes (or uploads the same).
A document without indexes replaces none that has some. -/
def inOrder (loc : Locale) (ell : Elliptics) (s : Server) : ServerEvent → Bool
  | .upload _ => true
  | .thread i =>
    match s.pool.threads i with
    | .op (.setIndexes key _) _ =>
      match s.pool.shared.writer (ell.transform key) with
      | some j => j == i || indexing (s.pool.threads j) || s.upload j == s.upload i
      | none => false
    | .op (.writeData key _) _ =>
      (s.upload i).any (fun update => !(update.indexes loc).isEmpty) ||
        (s.pool.shared.indexes (ell.transform key)).isEmpty
    | _ => true

/-- The condition on a run's steps. -/
def InOrder (loc : Locale) (ell : Elliptics) (s : Server) (event : ServerEvent) : Prop :=
  inOrder loc ell s event = true

/-! ### Where an upload stands -/

end Server

/-- What is left of an upload to do, once its storage operations succeed. -/
inductive Stage
  | writing (update : Update)
  | indexing (update : Update)
  | replying (code : Status)
  | answered

namespace Stage

/-- The callbacks left. -/
def program (loc : Locale) : Stage → UploadProgram
  | .writing update =>
    .op (.writeData update.key (packDocument ⟨update.ts, update.key, update.content⟩))
      (Upload.onWriteFinishedUpdateIndex loc ⟨update.ts, update.key, update.content⟩
        update.baseIndex)
  | .indexing update =>
    .op (.setIndexes update.key (update.indexes loc)) Upload.onIndexUpdateFinished
  | .replying code => Upload.sendReply code
  | .answered => .pure ()

/-- The stage after the next operation. -/
def next (loc : Locale) : Stage → Stage
  | .writing update =>
    if (update.indexes loc).isEmpty then .replying 200 else .indexing update
  | .indexing _ => .replying 200
  | .replying _ => .answered
  | .answered => .answered

theorem next_writing (loc : Locale) (update : Update) : (writing update).next loc =
    if (update.indexes loc).isEmpty then replying 200 else indexing update := rfl

/-- The first stage of a request. -/
def start (req : UploadRequest) : Stage :=
  match Upload.update req with
  | some update => .writing update
  | none => .replying (if req.verdict ≠ 200 && !req.noauthAll then req.verdict else 400)

/-- The storage after the next operation of upload `i`. -/
def effect (loc : Locale) (ell : Elliptics) (i : ℕ) : Stage → Storage → Storage
  | .writing update, s => { s with
      content := Function.update s.content (ell.transform update.key)
        (some (packDocument ⟨update.ts, update.key, update.content⟩))
      writer := Function.update s.writer (ell.transform update.key) (some i) }
  | .indexing update, s =>
    { s with indexes := setIndexes ell s.indexes update.key (update.indexes loc) }
  | .replying _, s => s
  | .answered, s => s

/-- **A request is served from its first stage on.** -/
theorem program_start (loc : Locale) (req : UploadRequest) :
    (start req).program loc = Upload.checked loc req := by
  unfold start Upload.update Upload.checked
  by_cases rejected : (req.verdict ≠ 200 && !req.noauthAll) = true
  · simp only [if_pos rejected]
    rfl
  · simp only [if_neg rejected]
    cases req.baseIndex <;> cases req.name <;> rfl

variable {loc : Locale} {ell : Elliptics} {i : ℕ}

/-- **What each stage's step does.** -/
theorem stepThread_stage {pool pool' : Pool UploadAnswer Storage} {stage : Stage}
    (thread : pool.threads i = stage.program loc)
    (stepped : pool.stepThread (UploadOp.perform ell) i = some pool') :
    stage ≠ .answered ∧ pool' = { pool with
      shared := stage.effect loc ell i pool.shared
      threads := Function.update pool.threads i ((stage.next loc).program loc) } := by
  obtain ⟨o, next, answer, shared', asked, performed, rfl⟩ := Pool.stepThread_spec stepped
  rw [thread] at asked
  cases stage with
  | writing update =>
    cases asked
    cases performed
    refine ⟨nofun, ?_⟩
    have rest : Upload.onWriteFinishedUpdateIndex loc ⟨update.ts, update.key, update.content⟩
        update.baseIndex none = ((writing update).next loc).program loc := by
      rw [next_writing]
      show (if (update.indexes loc).isEmpty then Upload.sendReply 200 else
        .op (.setIndexes update.key (update.indexes loc)) Upload.onIndexUpdateFinished) = _
      split <;> rfl
    rw [rest]
    rfl
  | indexing update =>
    cases asked
    cases performed
    exact ⟨nofun, rfl⟩
  | replying code =>
    cases asked
    cases performed
    exact ⟨nofun, rfl⟩
  | answered => cases asked

theorem eq_indexing {stage : Stage} (waits : Server.indexing (stage.program loc) = true) :
    ∃ update, stage = .indexing update := by
  cases stage with
  | indexing update => exact ⟨update, rfl⟩
  | writing _ => cases waits
  | replying _ => cases waits
  | answered => cases waits

theorem eq_answered {stage : Stage} (ended : Server.ended (stage.program loc) = true) :
    stage = .answered := by
  cases stage with
  | answered => rfl
  | writing _ => cases ended
  | indexing _ => cases ended
  | replying _ => cases ended

end Stage

/-! ### The invariant -/

namespace Server

variable {loc : Locale} {ell : Elliptics} {s s' : Server} {stages : ℕ → Stage}

/-- Upload `j` wrote the object's content last. Its indexes are those of that document, unless the
upload has still to set them. -/
structure Stored (loc : Locale) (ell : Elliptics) (s : Server) (stages : ℕ → Stage) (id : RawId)
    (j : ℕ) (update : Update) : Prop where
  started : j < s.pool.spawned
  uploaded : s.upload j = some update
  object : ell.transform update.key = id
  content : s.pool.shared.content id =
    some (packDocument ⟨update.ts, update.key, update.content⟩)
  indexes : stages j = .indexing update ∨
    s.pool.shared.indexes id = update.indexSet loc ell

/-- Every upload stands at its stage, and every object is as the uploads left it. -/
structure Consistent (loc : Locale) (ell : Elliptics) (s : Server) (stages : ℕ → Stage) : Prop where
  threads : ∀ i, s.pool.threads i = (stages i).program loc
  fresh : ∀ i, s.pool.spawned ≤ i → stages i = .answered
  own : ∀ i update, stages i = .writing update ∨ stages i = .indexing update →
    s.upload i = some update
  unwritten : ∀ id, s.pool.shared.writer id = none →
    s.pool.shared.content id = none ∧ s.pool.shared.indexes id = []
  written : ∀ id j, s.pool.shared.writer id = some j →
    ∃ update, Stored loc ell s stages id j update

/-- An object that a step leaves alone stays as it is, if its writer still waits where it did. -/
theorem Stored.frame {stages' : ℕ → Stage} {id : RawId} {j : ℕ} {update : Update}
    (stored : Stored loc ell s stages id j update) (grows : s.pool.spawned ≤ s'.pool.spawned)
    (uploads : s'.upload j = s.upload j)
    (content : s'.pool.shared.content id = s.pool.shared.content id)
    (indexes : s'.pool.shared.indexes id = s.pool.shared.indexes id)
    (waits : stages j = .indexing update → stages' j = .indexing update) :
    Stored loc ell s' stages' id j update where
  started := Nat.lt_of_lt_of_le stored.started grows
  uploaded := uploads.trans stored.uploaded
  object := stored.object
  content := content.trans stored.content
  indexes := stored.indexes.imp waits fun set => indexes.trans set

theorem consistent_new (loc : Locale) (ell : Elliptics) :
    Consistent loc ell new fun _ => .answered where
  threads _ := rfl
  fresh _ _ := rfl
  own i update staged := by rcases staged with staged | staged <;> cases staged
  unwritten _ _ := ⟨rfl, rfl⟩
  written id j wrote := by cases wrote

/-- **A request that comes in** changes no object. -/
theorem Consistent.upload (consistent : Consistent loc ell s stages) (req : UploadRequest) :
    Consistent loc ell
      { pool := s.pool.spawn (Upload.checked loc req)
        requests := Function.update s.requests s.pool.spawned (some req) }
      (Function.update stages s.pool.spawned (Stage.start req)) where
  threads i := by
    by_cases new : i = s.pool.spawned
    · subst new
      simp only [Pool.spawn, Function.update_self]
      exact (Stage.program_start loc req).symm
    · simp only [Pool.spawn, Function.update_of_ne new]
      exact consistent.threads i
  fresh i later := by
    have later : s.pool.spawned + 1 ≤ i := later
    rw [Function.update_of_ne (by omega)]
    exact consistent.fresh i (by omega)
  own i update staged := by
    by_cases new : i = s.pool.spawned
    · subst new
      simp only [Function.update_self] at staged
      simp only [Server.upload, Function.update_self, Option.bind_some]
      unfold Stage.start at staged
      split at staged
      · rename_i found
        rcases staged with same | same <;> cases same
        exact found
      · rcases staged with same | same <;> cases same
    · simp only [Function.update_of_ne new] at staged
      simp only [Server.upload, Function.update_of_ne new]
      exact consistent.own i update staged
  unwritten := consistent.unwritten
  written id j wrote := by
    obtain ⟨update, stored⟩ := consistent.written id j wrote
    have old : j ≠ s.pool.spawned := Nat.ne_of_lt stored.started
    refine ⟨update, stored.frame (Nat.le_succ _) ?_ rfl rfl fun waits => ?_⟩
    · simp only [Server.upload, Function.update_of_ne old]
    · rwa [Function.update_of_ne old]

/-- What a step in order finds at an index update: the upload that wrote the content. -/
theorem writer_of_inOrder (consistent : Consistent loc ell s stages) {i : ℕ} {update : Update}
    (stage : stages i = .indexing update) (ordered : InOrder loc ell s (.thread i)) :
    ∃ j, s.pool.shared.writer (ell.transform update.key) = some j ∧
      (j = i ∨ (∃ other, stages j = .indexing other) ∨ s.upload j = s.upload i) := by
  have thread := consistent.threads i
  rw [stage] at thread
  unfold InOrder inOrder at ordered
  simp only [thread, Stage.program] at ordered
  split at ordered
  · rename_i j wrote
    refine ⟨j, wrote, ?_⟩
    simp only [Bool.or_eq_true, beq_iff_eq, consistent.threads j] at ordered
    rcases ordered with (same | waits) | equal
    · exact .inl same
    · exact .inr (.inl (Stage.eq_indexing waits))
    · exact .inr (.inr equal)
  · cases ordered

/-- A step in order writes a document without indexes only where there are none. -/
theorem indexes_of_inOrder (consistent : Consistent loc ell s stages) {i : ℕ} {update : Update}
    (stage : stages i = .writing update) (ordered : InOrder loc ell s (.thread i))
    (none : (update.indexes loc).isEmpty = true) :
    s.pool.shared.indexes (ell.transform update.key) = update.indexSet loc ell := by
  have thread := consistent.threads i
  rw [stage] at thread
  unfold InOrder inOrder at ordered
  simp only [thread, Stage.program, consistent.own i update (.inl stage), Option.any_some, none,
    Bool.not_true, Bool.false_or] at ordered
  rw [List.isEmpty_iff.mp ordered, Update.indexSet, List.isEmpty_iff.mp none]
  exact (List.eq_nil_iff_forall_not_mem.mpr fun index member =>
    List.not_mem_nil (ell.mem_of_mem_indexSet member)).symm

/-- The server after a step of upload `i` at its stage. -/
def after (loc : Locale) (ell : Elliptics) (s : Server) (stage : Stage) (i : ℕ) : Server :=
  { s with pool := { s.pool with
      shared := stage.effect loc ell i s.pool.shared
      threads := Function.update s.pool.threads i ((stage.next loc).program loc) } }

/-- The object an upload wrote its document to. -/
theorem stored_write (consistent : Consistent loc ell s stages) {i : ℕ} {update : Update}
    (stage : stages i = .writing update) (started : i < s.pool.spawned)
    (ordered : InOrder loc ell s (.thread i)) :
    Stored loc ell (s.after loc ell (.writing update) i)
      (Function.update stages i ((Stage.writing update).next loc)) (ell.transform update.key) i
      update where
  started := started
  uploaded := consistent.own i update (.inl stage)
  object := rfl
  content := Function.update_self ..
  indexes := by
    rw [Function.update_self, Stage.next_writing]
    by_cases none : (update.indexes loc).isEmpty = true
    · exact .inr (indexes_of_inOrder consistent stage ordered none)
    · exact .inl (if_neg none)

/-- The object an upload set its indexes on. -/
theorem stored_set (consistent : Consistent loc ell s stages) {i j : ℕ} {update stored : Update}
    (stage : stages i = .indexing update) (ordered : InOrder loc ell s (.thread i))
    (wrote : s.pool.shared.writer (ell.transform update.key) = some j)
    (before : Stored loc ell s stages (ell.transform update.key) j stored) :
    Stored loc ell (s.after loc ell (.indexing update) i)
      (Function.update stages i ((Stage.indexing update).next loc)) (ell.transform update.key) j
      stored where
  started := before.started
  uploaded := before.uploaded
  object := before.object
  content := before.content
  indexes := by
    have own := consistent.own i update (.inr stage)
    by_cases mine : s.upload j = s.upload i
    · -- the document stored is this upload's, or the same
      rw [before.uploaded, own] at mine
      cases mine
      exact .inr (Function.update_self ..)
    · have apart : j ≠ i := fun equal => mine (equal ▸ rfl)
      obtain ⟨j', wrote', order⟩ := writer_of_inOrder consistent stage ordered
      rw [wrote] at wrote'
      cases wrote'
      rcases order with equal | ⟨waiting, waits⟩ | equal
      · exact absurd equal apart
      · have set := consistent.own j waiting (.inr waits)
        rw [before.uploaded] at set
        cases set
        exact .inl (by rwa [Function.update_of_ne apart])
      · exact absurd equal mine

/-- **The objects after a step in order.** -/
theorem objects_after (consistent : Consistent loc ell s stages) {i : ℕ}
    (started : i < s.pool.spawned) (ordered : InOrder loc ell s (.thread i)) :
    (∀ id, (s.after loc ell (stages i) i).pool.shared.writer id = none →
      (s.after loc ell (stages i) i).pool.shared.content id = none ∧
        (s.after loc ell (stages i) i).pool.shared.indexes id = []) ∧
    ∀ id j, (s.after loc ell (stages i) i).pool.shared.writer id = some j →
      ∃ update, Stored loc ell (s.after loc ell (stages i) i)
        (Function.update stages i ((stages i).next loc)) id j update := by
  -- an object the step leaves alone
  have frame : ∀ {id j}, s.pool.shared.writer id = some j →
      (s.after loc ell (stages i) i).pool.shared.content id = s.pool.shared.content id →
      (s.after loc ell (stages i) i).pool.shared.indexes id = s.pool.shared.indexes id →
      (∀ update, stages i = .indexing update → ell.transform update.key ≠ id) →
      ∃ update, Stored loc ell (s.after loc ell (stages i) i)
        (Function.update stages i ((stages i).next loc)) id j update := by
    intro id j wrote content indexes elsewhere
    obtain ⟨update, stored⟩ := consistent.written id j wrote
    refine ⟨update, stored.frame (Nat.le_refl _) rfl content indexes fun waits => ?_⟩
    have other : j ≠ i := fun same => elsewhere update (same ▸ waits) stored.object
    rwa [Function.update_of_ne other]
  cases stage : stages i with
  | writing update =>
    rw [stage] at frame
    refine ⟨fun id none => ?_, fun id j wrote => ?_⟩ <;>
      by_cases same : id = ell.transform update.key
    · subst same
      have wrote : (s.after loc ell (.writing update) i).pool.shared.writer
          (ell.transform update.key) = some i := Function.update_self ..
      rw [wrote] at none
      cases none
    · simp only [after, Stage.effect, Function.update_of_ne same] at none ⊢
      exact consistent.unwritten id none
    · subst same
      have wrote' : (s.after loc ell (.writing update) i).pool.shared.writer
          (ell.transform update.key) = some i := Function.update_self ..
      rw [wrote'] at wrote
      cases wrote
      exact ⟨update, stored_write consistent stage started ordered⟩
    · simp only [after, Stage.effect, Function.update_of_ne same] at wrote
      exact frame wrote (Function.update_of_ne same ..) rfl fun _ waits => by cases waits
  | indexing update =>
    rw [stage] at frame
    refine ⟨fun id none => ?_, fun id j wrote => ?_⟩ <;>
      by_cases same : id = ell.transform update.key
    · subst same
      obtain ⟨j, wrote, -⟩ := writer_of_inOrder consistent stage ordered
      cases wrote.symm.trans none
    · have kept : (s.after loc ell (.indexing update) i).pool.shared.indexes id =
          s.pool.shared.indexes id := Function.update_of_ne same ..
      rw [kept]
      exact consistent.unwritten id none
    · subst same
      obtain ⟨stored, before⟩ := consistent.written _ j wrote
      exact ⟨stored, stored_set consistent stage ordered wrote before⟩
    · exact frame wrote rfl (Function.update_of_ne same ..) fun other waits equal => by
        cases waits
        exact same equal.symm
  | replying code =>
    rw [stage] at frame
    exact ⟨consistent.unwritten, fun id j wrote =>
      frame wrote rfl rfl fun _ waits => by cases waits⟩
  | answered =>
    rw [stage] at frame
    exact ⟨consistent.unwritten, fun id j wrote =>
      frame wrote rfl rfl fun _ waits => by cases waits⟩

/-- An upload's document stays its own from stage to stage. -/
theorem own_next {stage : Stage} {update : Update}
    (staged : stage.next loc = .writing update ∨ stage.next loc = .indexing update) :
    stage = .writing update := by
  cases stage with
  | writing other =>
    rw [Stage.next_writing] at staged
    split at staged
    · rcases staged with staged | staged <;> cases staged
    · rcases staged with staged | staged <;> cases staged
      rfl
  | indexing other => rcases staged with staged | staged <;> cases staged
  | replying code => rcases staged with staged | staged <;> cases staged
  | answered => rcases staged with staged | staged <;> cases staged

/-- **A step in order** keeps every object as its uploads left it. -/
theorem Consistent.thread (consistent : Consistent loc ell s stages) {i : ℕ}
    (ordered : InOrder loc ell s (.thread i)) (stepped : s.step loc ell (.thread i) = some s') :
    Consistent loc ell s' (Function.update stages i ((stages i).next loc)) := by
  obtain ⟨pool', moved, rfl⟩ := Option.map_eq_some_iff.mp stepped
  obtain ⟨active, rfl⟩ := Stage.stepThread_stage (consistent.threads i) moved
  have started : i < s.pool.spawned := by
    by_contra unused
    exact active (consistent.fresh i (Nat.le_of_not_lt unused))
  obtain ⟨unwritten, written⟩ := objects_after consistent started ordered
  refine ⟨fun j => ?_, fun j later => ?_, fun j update staged => ?_, unwritten, written⟩
  · by_cases same : j = i
    · subst same
      simp only [Function.update_self]
    · simp only [Function.update_of_ne same]
      exact consistent.threads j
  · have later : s.pool.spawned ≤ j := later
    rw [Function.update_of_ne (by omega)]
    exact consistent.fresh j later
  · by_cases same : j = i
    · subst same
      rw [Function.update_self] at staged
      exact consistent.own j update (.inl (own_next staged))
    · rw [Function.update_of_ne same] at staged
      exact consistent.own j update staged

/-- **A run in order** keeps every object as its uploads left it. -/
theorem exists_consistent {events : List ServerEvent}
    (run : Run (step loc ell) (InOrder loc ell) new events s) :
    ∃ stages, Consistent loc ell s stages := by
  refine run.invariant (fun s => ∃ stages, Consistent loc ell s stages)
    ⟨_, consistent_new loc ell⟩ ?_
  rintro s event s' ⟨stages, consistent⟩ ordered stepped
  cases event with
  | upload req =>
    cases stepped
    exact ⟨_, consistent.upload req⟩
  | thread i => exact ⟨_, consistent.thread ordered stepped⟩

/-- **The indexes match the content** when all uploads are answered, in every run in order. -/
theorem indexes_match {events : List ServerEvent}
    (run : Run (step loc ell) (InOrder loc ell) new events s) (answered : s.Answered) :
    IndexesMatch loc ell s := by
  obtain ⟨stages, consistent⟩ := exists_consistent run
  refine ⟨consistent.unwritten, fun id i wrote => ?_⟩
  obtain ⟨update, stored⟩ := consistent.written id i wrote
  have ended := answered i stored.started
  rw [consistent.threads i] at ended
  refine ⟨update, stored.uploaded, stored.object, stored.content,
    stored.indexes.resolve_left fun waits => ?_⟩
  rw [Stage.eq_answered ended] at waits
  cases waits

/-! ### Two uploads of one name -/

/-- An upload under the name `n` and the base index `all`. -/
def request (buffer : Str) (now : DnetTime) : UploadRequest :=
  ⟨200, false, some ['a', 'l', 'l'], some ['n'], buffer, now⟩

/-- The first upload's indexes are set before the second's. -/
def overlapping : List ServerEvent :=
  [.upload (request ['x'] ⟨1, 0⟩), .upload (request ['y'] ⟨2, 0⟩), .thread 0, .thread 1, .thread 0,
    .thread 1, .thread 0, .thread 1]

theorem overlapping_runs :
    (exec (step .ascii .plain) (inOrder .ascii .plain) new overlapping).isSome = true := by
  decide +kernel

theorem overlapping_answered : Answered (endState overlapping_runs) := by
  unfold Answered
  decide +kernel

theorem overlapping_inOrder :
    Run (step .ascii .plain) (InOrder .ascii .plain) new overlapping (endState overlapping_runs) :=
  Run.of_endState (fun _ _ ordered => ordered) overlapping_runs

theorem indexes_match_overlapping : IndexesMatch .ascii .plain (endState overlapping_runs) :=
  indexes_match overlapping_inOrder overlapping_answered

/-- The first upload's indexes are set last. -/
def overtaken : List ServerEvent :=
  [.upload (request ['x'] ⟨1, 0⟩), .upload (request ['y'] ⟨2, 0⟩), .thread 0, .thread 1, .thread 1,
    .thread 0, .thread 0, .thread 1]

theorem overtaken_runs :
    (exec (step .ascii .plain) (fun _ _ => true) new overtaken).isSome = true := by
  decide +kernel

/-- The document stored and the indexes set after that. -/
theorem overtaken_objects :
    (endState overtaken_runs).Answered ∧
      (endState overtaken_runs).pool.shared.writer (Elliptics.plain.transform ['n']) = some 1 ∧
      (endState overtaken_runs).upload 1 = some ⟨['n'], ['y'], ⟨2, 0⟩, ['a', 'l', 'l']⟩ ∧
      ((endState overtaken_runs).pool.shared.indexes (Elliptics.plain.transform ['n'])).map
        Prod.fst =
        [Elliptics.plain.transform ['x'], Elliptics.plain.transform ['a', 'l', 'l']] := by
  unfold Answered
  decide +kernel

/-- **The content is the second upload's, the indexes are the first's.** -/
theorem indexes_mismatch :
    ∃ s, Run (step .ascii .plain) AnyStep new overtaken s ∧ s.Answered ∧
      ¬ IndexesMatch .ascii .plain s := by
  obtain ⟨answered, wrote, uploaded, ids⟩ := overtaken_objects
  refine ⟨endState overtaken_runs, Run.of_endState (fun _ _ _ => trivial) overtaken_runs, answered,
    fun matched => ?_⟩
  obtain ⟨update, stored, object⟩ := matched.written _ 1 wrote
  cases uploaded.symm.trans stored
  rw [object.indexes] at ids
  exact absurd ids (by decide +kernel)

end Server

end Wookie
