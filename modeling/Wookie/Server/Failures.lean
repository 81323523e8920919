/-
**Uploads one after another, when storage operations fail.**

The README promises that stored data appears in the search indexes. An upload is two updates, and a
failure of either ends it with a 503: a failed `write_data` changes nothing, a failed `set_indexes`
leaves the document written and its indexes as they were.

* `Server.handle` — one upload at a time; each storage operation succeeds or fails.
* `Searchable` — an index set finds an upload's document under its tokens and its base index.
* `Arrives` — the condition on a run's steps: a `set_indexes` that fails finds the object already
  indexed so, and elliptics keeps the token records of one that succeeds.
* `stored_searchable` — **a run that meets it leaves every stored document searchable, and a step
  that does not leaves one that is not.**
* `stored_unindexed` — a first upload whose `set_indexes` fails.
-/

import Wookie.Search.Lossless
import Wookie.Server.Upload

namespace Wookie

open Library

/-! ### What a failed operation answers -/

/-- A storage operation that fails: its callback gets the error. An answer cannot fail. -/
def UploadOp.fail (error : Int) : (o : UploadOp) → Storage → Option (UploadAnswer o × Storage)
  | .writeData _ _, s => some (some error, s)
  | .setIndexes _ _, s => some (some error, s)
  | .sendReply _, _ => none

/-- What happens to the server that handles one upload at a time. -/
inductive HandledEvent
  | upload (req : UploadRequest)
  | succeed
  | fail (error : Int)

namespace Server

/-- The upload that came in last. -/
def current (s : Server) : ℕ := s.pool.spawned - 1

instance (s : Server) : Decidable s.Answered :=
  inferInstanceAs (Decidable (∀ i < s.pool.spawned, ended (s.pool.threads i) = true))

/-- One step: a request comes in once all are answered, or the current upload's operation succeeds
or fails. -/
def handle (loc : Locale) (ell : Elliptics) (s : Server) : HandledEvent → Option Server
  | .upload req => if s.Answered then s.step loc ell (.upload req) else none
  | .succeed => s.step loc ell (.thread s.current)
  | .fail error =>
    (s.pool.stepThread (fun _ => UploadOp.fail error) s.current).map fun pool =>
      { s with pool := pool }

end Server

/-! ### Searchable documents -/

section Searchable

variable {loc : Locale} {ell : Elliptics} {update : Update}

/-- **The index set finds the document**: every token has a record with the token's positions, and
the base index is there if it has a name. -/
structure Searchable (loc : Locale) (ell : Elliptics) (held : List (RawId × DataPointer))
    (update : Update) : Prop where
  tokens : ∀ token ∈ loc.words update.content, ∃ data, (ell.transform token, data) ∈ held ∧
    IsTokenRecord loc update.content token data
  base : update.baseIndex ≠ [] → ell.transform update.baseIndex ∈ held.map Prod.fst

/-- The records of an upload's tokens. -/
def Update.tokenRecords (loc : Locale) (update : Update) : List IndexData :=
  Wookie.tokenRecords loc update.content update.ts

/-- elliptics keeps every token's record in the upload's index set: none is displaced by what is
listed under the same raw id. -/
def Update.Kept (loc : Locale) (ell : Elliptics) (update : Update) : Prop :=
  ∀ record ∈ update.tokenRecords loc,
    (ell.transform record.key, record.convert) ∈ update.indexSet loc ell

/-- `update.indexes`, taken apart. -/
theorem Update.indexes_eq : update.indexes loc =
    (update.tokenRecords loc).map (fun record => (record.key, record.convert)) ++
      baseRecord update.key update.ts update.baseIndex :=
  prepareIndexes_eq loc update.key update.content update.ts update.baseIndex

theorem Update.lossless (update : Update) :
    Lossless (loc.words update.content) update.ts (update.tokenRecords loc) :=
  lossless_tokenRecords loc update.content update.ts

theorem Update.mem_indexes {record : IndexData} (listed : record ∈ update.tokenRecords loc) :
    (record.key, record.convert) ∈ update.indexes loc := by
  rw [Update.indexes_eq]
  exact List.mem_append_left _ (List.mem_map.mpr ⟨record, listed, rfl⟩)

/-- **Names of distinct raw ids keep their records.** -/
theorem Update.kept_of_nodup (distinct : (update.ids loc ell).Nodup) : update.Kept loc ell := by
  intro record listed
  obtain ⟨before, after, split⟩ := List.append_of_mem (Update.mem_indexes listed)
  rw [Update.ids, split, List.map_append, List.map_cons] at distinct
  have apart := (List.nodup_cons.mp (List.nodup_append.mp distinct).2.1).1
  rw [Update.indexSet, split, List.map_append, List.map_cons]
  refine ell.last_mem_indexSet fun other listed same => apart ?_
  obtain ⟨index, later, rfl⟩ := List.mem_map.mp listed
  exact List.mem_map.mpr ⟨index, later, same⟩

/-- The record of a token holds its positions. -/
theorem Update.isTokenRecord {record : IndexData} (listed : record ∈ update.tokenRecords loc) :
    IsTokenRecord loc update.content record.key record.convert := by
  rcases mem_prepareIndexes (Update.mem_indexes listed) with holds | ⟨-, same⟩
  · exact holds
  · have packed : record.convert = packDocument ⟨update.ts, update.key, update.key⟩ :=
      congrArg Prod.snd same
    have read := ofData_convert record
    rw [packed, ofData_packDocument] at read
    cases read

/-- Every token has its record. -/
theorem Update.exists_record {token : Str} (word : token ∈ loc.words update.content) :
    ∃ record ∈ update.tokenRecords loc, record.key = token := by
  obtain ⟨n, within, rfl⟩ := List.getElem_of_mem word
  have lossless : Lossless (loc.words update.content) update.ts (update.tokenRecords loc) :=
    update.lossless
  obtain ⟨record, listed, inside⟩ := (lossless.covers n).mpr ⟨by omega, by omega⟩
  have found := (lossless.at_iff record listed n).mp inside
  rw [List.getElem?_eq_getElem within] at found
  exact ⟨record, listed, (Option.some.inj found).symm⟩

/-- A record with a token's positions is the token's own. -/
theorem Update.eq_record {record other : IndexData} (listed : record ∈ update.tokenRecords loc)
    (listed' : other ∈ update.tokenRecords loc)
    (holds : IsTokenRecord loc update.content record.key other.convert) : other = record := by
  obtain ⟨word, idata, same, positions⟩ := holds
  have read := ofData_convert other
  rw [same, ofData_convert] at read
  cases read
  obtain ⟨n, within, found⟩ := List.getElem_of_mem word
  have place : (loc.words update.content)[n]? = some record.key := by
    rw [List.getElem?_eq_getElem within, found]
  have inside := (positions n).mpr ⟨n, rfl, place⟩
  have key := (update.lossless.at_iff other listed' n).mp inside
  rw [place] at key
  exact List.inj_on_of_nodup_map update.lossless.distinct listed' listed (Option.some.inj key).symm

/-- **An upload's own index set finds its document** if and only if its token records are kept. -/
theorem searchable_indexSet :
    Searchable loc ell (update.indexSet loc ell) update ↔ update.Kept loc ell := by
  constructor
  · intro searchable record listed
    have holds := Update.isTokenRecord listed
    obtain ⟨data, member, found⟩ := searchable.tokens record.key holds.word
    obtain ⟨prepared, source, same⟩ := List.mem_map.mp (ell.mem_of_mem_indexSet member)
    obtain ⟨-, rfl⟩ := Prod.mk.inj same
    rw [Update.indexes_eq] at source
    rcases List.mem_append.mp source with token | base
    · obtain ⟨other, listed', rfl⟩ := List.mem_map.mp token
      rwa [Update.eq_record listed listed' found] at member
    · -- the base index's record has no positions
      obtain ⟨idata, packed, -⟩ := found.packed
      unfold baseRecord at base
      split at base
      · cases base
      · rw [List.mem_singleton.mp base] at packed
        have read := ofData_convert idata
        rw [← packed, ofData_packDocument] at read
        cases read
  · intro kept
    refine ⟨fun token word => ?_, fun named => ?_⟩
    · obtain ⟨record, listed, rfl⟩ := Update.exists_record word
      exact ⟨record.convert, kept record listed, Update.isTokenRecord listed⟩
    · exact List.mem_map.mpr ⟨_, base_mem_indexSet named, rfl⟩

end Searchable

/-! ### Runs with failures -/

namespace Server

variable {loc : Locale} {ell : Elliptics} {s s' : Server}

/-- The object holds the document that upload `j` wrote. -/
structure Holds (ell : Elliptics) (s : Server) (id : RawId) (j : ℕ) (update : Update) : Prop where
  writer : s.pool.shared.writer id = some j
  uploaded : s.upload j = some update
  object : ell.transform update.key = id
  content : s.pool.shared.content id = some (packDocument ⟨update.ts, update.key, update.content⟩)

/-- **Stored means searchable**: every stored document is found by the indexes of its object. -/
def StoredSearchable (loc : Locale) (ell : Elliptics) (s : Server) : Prop :=
  ∀ id data, s.pool.shared.content id = some data → ∃ j update, Holds ell s id j update ∧
    Searchable loc ell (s.pool.shared.indexes id) update

/-- **The indexes arrive.** Where the current upload's `set_indexes` fails, the object is already
indexed so; where it succeeds, elliptics keeps its token records. -/
def Arrives (loc : Locale) (ell : Elliptics) (s : Server) : HandledEvent → Prop
  | .upload _ => True
  | .succeed => indexing (s.pool.threads s.current) = true →
    ∀ update, s.upload s.current = some update → update.Kept loc ell
  | .fail _ => indexing (s.pool.threads s.current) = true →
    ∀ update, s.upload s.current = some update →
      Searchable loc ell (s.pool.shared.indexes (ell.transform update.key)) update

/-- The server after the current upload's operation: the storage, and where the upload stands. -/
def advance (loc : Locale) (s : Server) (shared : Storage) (stage : Stage) : Server :=
  { s with pool := { s.pool with
      shared := shared
      threads := Function.update s.pool.threads s.current (stage.program loc) } }

/-- The current upload stands at its stage; all others are answered. -/
structure Handling (loc : Locale) (ell : Elliptics) (s : Server) (stage : Stage) : Prop where
  current : s.pool.threads s.current = stage.program loc
  others : ∀ i, i ≠ s.current → ended (s.pool.threads i) = true
  started : stage ≠ .answered → 0 < s.pool.spawned
  own : ∀ update, stage = .writing update ∨ stage = .indexing update →
    s.upload s.current = some update
  written : ∀ update, stage = .indexing update →
    Holds ell s (ell.transform update.key) s.current update
  holds : ∀ id data, s.pool.shared.content id = some data →
    ∃ j update, Holds ell s id j update ∧ j < s.pool.spawned

theorem handling_new (loc : Locale) (ell : Elliptics) : Handling loc ell new .answered where
  current := rfl
  others _ _ := rfl
  started active := absurd rfl active
  own update staged := by rcases staged with staged | staged <;> cases staged
  written update staged := by cases staged
  holds id data stored := by cases stored

/-- **All a step can do.** -/
theorem handle_spec {stage : Stage} {event : HandledEvent} (handling : Handling loc ell s stage)
    (stepped : s.handle loc ell event = some s') :
    (∃ req, event = .upload req ∧ s.Answered ∧ s.step loc ell (.upload req) = some s') ∨
    (event = .succeed ∧ stage ≠ .answered ∧
      s' = s.advance loc (stage.effect loc ell s.current s.pool.shared) (stage.next loc)) ∨
    (∃ error update, event = .fail error ∧ (stage = .writing update ∨ stage = .indexing update) ∧
      s' = s.advance loc s.pool.shared (.replying 503)) := by
  cases event with
  | upload req =>
    simp only [handle] at stepped
    split at stepped
    · exact .inl ⟨req, rfl, ‹_›, stepped⟩
    · cases stepped
  | succeed =>
    obtain ⟨pool', moved, rfl⟩ := Option.map_eq_some_iff.mp stepped
    obtain ⟨active, rfl⟩ := Stage.stepThread_stage handling.current moved
    exact .inr (.inl ⟨rfl, active, rfl⟩)
  | fail error =>
    obtain ⟨pool', moved, rfl⟩ := Option.map_eq_some_iff.mp stepped
    obtain ⟨o, next, answer, shared', asked, performed, rfl⟩ := Pool.stepThread_spec moved
    rw [handling.current] at asked
    cases stage with
    | writing update =>
      cases asked
      cases performed
      exact .inr (.inr ⟨error, update, rfl, .inl rfl, rfl⟩)
    | indexing update =>
      cases asked
      cases performed
      exact .inr (.inr ⟨error, update, rfl, .inr rfl, rfl⟩)
    | replying code =>
      cases asked
      cases performed
    | answered => cases asked

/-- Nothing is stored under another upload's name. -/
theorem Holds.unique {id : RawId} {j k : ℕ} {update other : Update}
    (first : Holds ell s id j update) (second : Holds ell s id k other) :
    j = k ∧ update = other := by
  have same := Option.some.inj (first.writer.symm.trans second.writer)
  subst same
  exact ⟨rfl, Option.some.inj (first.uploaded.symm.trans second.uploaded)⟩

/-- What is held stays held while the object's content and the requests stay. -/
theorem Holds.frame {id : RawId} {j : ℕ} {update : Update} (holds : Holds ell s id j update)
    (writer : s'.pool.shared.writer id = s.pool.shared.writer id)
    (content : s'.pool.shared.content id = s.pool.shared.content id)
    (uploads : s'.upload j = s.upload j) : Holds ell s' id j update where
  writer := writer.trans holds.writer
  uploaded := uploads.trans holds.uploaded
  object := holds.object
  content := content.trans holds.content

/-- Once all uploads are answered, the current one is. -/
theorem Handling.answered {stage : Stage} (handling : Handling loc ell s stage)
    (answered : s.Answered) : stage = .answered := by
  by_contra active
  have ended := answered s.current (Nat.sub_lt (handling.started active) Nat.one_pos)
  rw [handling.current] at ended
  exact active (Stage.eq_answered ended)

/-- **A request that comes in** starts its upload and changes no object. -/
theorem Handling.upload {req : UploadRequest} (handling : Handling loc ell s .answered)
    (stepped : s.step loc ell (.upload req) = some s') : Handling loc ell s' (Stage.start req) := by
  cases stepped
  have current : ∀ requests,
      Server.current (Server.mk (s.pool.spawn (Upload.checked loc req)) requests) =
        s.pool.spawned := fun _ => rfl
  refine ⟨?_, fun i other => ?_, fun _ => Nat.succ_pos _, fun update staged => ?_,
    fun update staged => ?_, fun id data stored => ?_⟩
  · rw [current]
    simp only [Pool.spawn, Function.update_self]
    exact (Stage.program_start loc req).symm
  · rw [current] at other
    simp only [Pool.spawn, Function.update_of_ne other]
    by_cases last : i = s.current
    · rw [last, handling.current]
      rfl
    · exact handling.others i last
  · rw [current]
    simp only [Server.upload, Function.update_self, Option.bind_some]
    unfold Stage.start at staged
    split at staged
    · rename_i found
      rcases staged with same | same <;> cases same
      exact found
    · rcases staged with same | same <;> cases same
  · unfold Stage.start at staged
    split at staged <;> cases staged
  · obtain ⟨j, update, holds, old⟩ := handling.holds id data stored
    refine ⟨j, update, holds.frame rfl rfl ?_, Nat.lt_succ_of_lt old⟩
    simp only [Server.upload, Function.update_of_ne (Nat.ne_of_lt old)]

/-- The document an upload has written. -/
theorem holds_write {update : Update} {next : Stage} (own : s.upload s.current = some update) :
    Holds ell (s.advance loc ((Stage.writing update).effect loc ell s.current s.pool.shared) next)
      (ell.transform update.key) s.current update where
  writer := Function.update_self ..
  uploaded := own
  object := rfl
  content := Function.update_self ..

/-- **A written document** is the current upload's from then on. -/
theorem Handling.write {update : Update} (handling : Handling loc ell s (.writing update)) :
    Handling loc ell
      (s.advance loc ((Stage.writing update).effect loc ell s.current s.pool.shared)
        ((Stage.writing update).next loc))
      ((Stage.writing update).next loc) := by
  have own := handling.own update (.inl rfl)
  have started := handling.started (by rintro ⟨⟩)
  refine ⟨Function.update_self .., fun i other => ?_, fun _ => started, fun other staged => ?_,
    fun other staged => ?_, fun id data stored => ?_⟩
  · exact (congrArg ended (Function.update_of_ne other ..)).trans (handling.others i other)
  · have same := own_next staged
    cases same
    exact own
  · have same := own_next (.inr staged)
    cases same
    exact holds_write own
  · by_cases same : id = ell.transform update.key
    · subst same
      exact ⟨s.current, update, holds_write own, Nat.sub_lt started Nat.one_pos⟩
    · obtain ⟨j, other, holds, old⟩ := handling.holds id data
        ((Function.update_of_ne same ..).symm.trans stored)
      exact ⟨j, other, holds.frame (Function.update_of_ne same ..)
        (Function.update_of_ne same ..) rfl, old⟩

/-- **A stage that writes no document** keeps the documents' uploads. -/
theorem Handling.keep {stage next : Stage} {shared : Storage}
    (handling : Handling loc ell s stage) (active : stage ≠ .answered)
    (content : shared.content = s.pool.shared.content)
    (writer : shared.writer = s.pool.shared.writer)
    (ends : (∃ code, next = .replying code) ∨ next = .answered) :
    Handling loc ell (s.advance loc shared next) next := by
  refine ⟨Function.update_self .., fun i other => ?_, fun _ => handling.started active,
    fun update staged => ?_, fun update staged => ?_, fun id data stored => ?_⟩
  · exact (congrArg ended (Function.update_of_ne other ..)).trans (handling.others i other)
  · rcases ends with ⟨code, rfl⟩ | rfl <;> rcases staged with staged | staged <;> cases staged
  · subst staged
    rcases ends with ⟨code, same⟩ | same <;> cases same
  · have stored : shared.content id = some data := stored
    rw [content] at stored
    obtain ⟨j, update, holds, old⟩ := handling.holds id data stored
    exact ⟨j, update, holds.frame (congrFun writer id) (congrFun content id) rfl, old⟩

/-- **An operation that succeeds** keeps the documents' uploads. -/
theorem Handling.succeed {stage : Stage} (handling : Handling loc ell s stage)
    (active : stage ≠ .answered) :
    Handling loc ell
      (s.advance loc (stage.effect loc ell s.current s.pool.shared) (stage.next loc))
      (stage.next loc) := by
  cases stage with
  | writing update => exact handling.write
  | indexing update => exact handling.keep active rfl rfl (.inl ⟨200, rfl⟩)
  | replying code => exact handling.keep active rfl rfl (.inr rfl)
  | answered => exact absurd rfl active

/-- **Every step** keeps the documents' uploads. -/
theorem Handling.step {stage : Stage} {event : HandledEvent} (handling : Handling loc ell s stage)
    (stepped : s.handle loc ell event = some s') : ∃ next, Handling loc ell s' next := by
  rcases handle_spec handling stepped with ⟨req, rfl, answered, came⟩ | ⟨rfl, active, rfl⟩ |
    ⟨error, update, rfl, staged, rfl⟩
  · rw [handling.answered answered] at handling
    exact ⟨_, handling.upload came⟩
  · exact ⟨_, handling.succeed active⟩
  · have active : stage ≠ .answered := by rcases staged with rfl | rfl <;> rintro ⟨⟩
    exact ⟨_, handling.keep active rfl rfl (.inl ⟨503, rfl⟩)⟩

theorem exists_handling {meets : Server → HandledEvent → Prop} {events : List HandledEvent}
    (run : Run (handle loc ell) meets new events s) : ∃ stage, Handling loc ell s stage := by
  refine run.invariant (fun s => ∃ stage, Handling loc ell s stage)
    ⟨_, handling_new loc ell⟩ ?_
  rintro s event s' ⟨stage, handling⟩ - stepped
  exact handling.step stepped

/-! ### Searchable all along -/

/-- Every document written is searchable, unless its upload has still to set its indexes. -/
def Found (loc : Locale) (ell : Elliptics) (s : Server) (stage : Stage) : Prop :=
  ∀ id j update, Holds ell s id j update → stage = .indexing update ∧ j = s.current ∨
    Searchable loc ell (s.pool.shared.indexes id) update

/-- A document without indexes needs none. -/
theorem searchable_of_isEmpty {update : Update} {held : List (RawId × DataPointer)}
    (none : (update.indexes loc).isEmpty = true) : Searchable loc ell held update := by
  have empty := List.isEmpty_iff.mp none
  refine ⟨fun token word => ?_, fun named => ?_⟩
  · obtain ⟨data, listed⟩ :=
      exists_mem_prepareIndexes update.key update.ts update.baseIndex word
    have listed : (token, data) ∈ update.indexes loc := listed
    rw [empty] at listed
    cases listed
  · rw [Update.indexes_eq, baseRecord, if_neg named] at empty
    simp at empty

/-- **A request that comes in** leaves every document searchable. -/
theorem Found.upload {req : UploadRequest} {next : Stage} (handling : Handling loc ell s .answered)
    (found : Found loc ell s .answered) (stepped : s.step loc ell (.upload req) = some s') :
    Found loc ell s' next := by
  cases stepped
  intro id j update holds
  obtain ⟨k, other, before, old⟩ := handling.holds id _ holds.content
  have same : j = k := Option.some.inj (holds.writer.symm.trans before.writer)
  subst same
  have uploaded : s.upload j = some update := by
    have later := holds.uploaded
    simpa only [Server.upload, Function.update_of_ne (Nat.ne_of_lt old)] using later
  have stored : Holds ell s id j update :=
    ⟨holds.writer, uploaded, holds.object, holds.content⟩
  rcases found id j update stored with ⟨waits, -⟩ | searchable
  · cases waits
  · exact .inr searchable

/-- **A written document** is searchable once its indexes are set, or at once if it has none. -/
theorem Found.write {update : Update} (handling : Handling loc ell s (.writing update))
    (found : Found loc ell s (.writing update)) :
    Found loc ell
      (s.advance loc ((Stage.writing update).effect loc ell s.current s.pool.shared)
        ((Stage.writing update).next loc))
      ((Stage.writing update).next loc) := by
  intro id j other holds
  by_cases same : id = ell.transform update.key
  · subst same
    obtain ⟨rfl, rfl⟩ := holds.unique (holds_write (handling.own update (.inl rfl)))
    rw [Stage.next_writing]
    by_cases none : (other.indexes loc).isEmpty = true
    · exact .inr (searchable_of_isEmpty none)
    · exact .inl ⟨if_neg none, rfl⟩
  · have stored : Holds ell s id j other := holds.frame (Function.update_of_ne same ..).symm
      (Function.update_of_ne same ..).symm rfl
    rcases found id j other stored with ⟨waits, -⟩ | searchable
    · cases waits
    · exact .inr searchable

/-- **An index set that arrives** finds the document of its upload. -/
theorem Found.index {update : Update} (handling : Handling loc ell s (.indexing update))
    (found : Found loc ell s (.indexing update)) {indexes : Indexes} {next : Stage}
    (others : ∀ id, id ≠ ell.transform update.key → indexes id = s.pool.shared.indexes id)
    (arrives : Searchable loc ell (indexes (ell.transform update.key)) update) :
    Found loc ell (s.advance loc { s.pool.shared with indexes := indexes } next) next := by
  intro id j other holds
  have stored : Holds ell s id j other := holds.frame rfl rfl rfl
  by_cases same : id = ell.transform update.key
  · subst same
    obtain ⟨-, rfl⟩ := stored.unique (handling.written update rfl)
    exact .inr arrives
  · rcases found id j other stored with ⟨waits, -⟩ | searchable
    · cases waits
      exact absurd stored.object.symm same
    · refine .inr ?_
      have kept : (s.advance loc { s.pool.shared with indexes := indexes } next).pool.shared.indexes
          id = s.pool.shared.indexes id := others id same
      rwa [kept]

/-- **A step whose indexes arrive** leaves every document searchable. -/
theorem Found.step {stage : Stage} {event : HandledEvent} (handling : Handling loc ell s stage)
    (found : Found loc ell s stage) (arrives : Arrives loc ell s event)
    (stepped : s.handle loc ell event = some s') :
    ∃ next, Handling loc ell s' next ∧ Found loc ell s' next := by
  rcases handle_spec handling stepped with ⟨req, rfl, answered, came⟩ | ⟨rfl, active, rfl⟩ |
    ⟨error, update, rfl, staged, rfl⟩
  · have idle := handling.answered answered
    subst idle
    exact ⟨_, handling.upload came, found.upload handling came⟩
  · refine ⟨_, handling.succeed active, ?_⟩
    cases stage with
    | writing update => exact found.write handling
    | indexing update =>
      have waits : indexing (s.pool.threads s.current) = true := by
        rw [handling.current]
        rfl
      have kept := arrives waits update (handling.own update (.inr rfl))
      refine found.index handling (fun id other => Function.update_of_ne other ..) ?_
      rw [Wookie.setIndexes, Function.update_self]
      exact searchable_indexSet.mpr kept
    | replying code =>
      intro id j update holds
      rcases found id j update (holds.frame rfl rfl rfl) with ⟨waits, -⟩ | searchable
      · cases waits
      · exact .inr searchable
    | answered => exact absurd rfl active
  · have active : stage ≠ .answered := by rcases staged with rfl | rfl <;> rintro ⟨⟩
    refine ⟨_, handling.keep active rfl rfl (.inl ⟨503, rfl⟩), ?_⟩
    rcases staged with rfl | rfl
    · intro id j other holds
      rcases found id j other (holds.frame rfl rfl rfl) with ⟨waits, -⟩ | searchable
      · cases waits
      · exact .inr searchable
    · have waits : indexing (s.pool.threads s.current) = true := by
        rw [handling.current]
        rfl
      exact found.index handling (fun _ _ => rfl)
        (arrives waits update (handling.own update (.inr rfl)))

/-- In a run whose indexes arrive, every document is searchable once its upload is answered. -/
theorem exists_found {events : List HandledEvent}
    (run : Run (handle loc ell) (Arrives loc ell) new events s) :
    ∃ stage, Handling loc ell s stage ∧ Found loc ell s stage := by
  refine run.invariant (fun s => ∃ stage, Handling loc ell s stage ∧ Found loc ell s stage)
    ⟨_, handling_new loc ell, fun id j update holds => by cases holds.writer⟩ ?_
  rintro s event s' ⟨stage, handling, found⟩ arrives stepped
  exact found.step handling arrives stepped

/-- All uploads are answered once the current one is. -/
theorem Handling.ended (handling : Handling loc ell s .answered) : s.Answered := by
  intro i _
  by_cases last : i = s.current
  · rw [last, handling.current]
    rfl
  · exact handling.others i last

/-- A stored document that its object's indexes do not find. -/
theorem not_storedSearchable {id : RawId} {j : ℕ} {update : Update}
    (holds : Holds ell s id j update)
    (missing : ¬ Searchable loc ell (s.pool.shared.indexes id) update) :
    ¬ StoredSearchable loc ell s := by
  intro all
  obtain ⟨k, other, stored, searchable⟩ := all id _ holds.content
  obtain ⟨-, rfl⟩ := holds.unique stored
  exact missing searchable

/-- The operation of an upload whose indexes do not arrive. -/
theorem missing_after {update : Update} {event : HandledEvent}
    (handling : Handling loc ell s (.indexing update)) (missed : ¬ Arrives loc ell s event)
    (stepped : s.handle loc ell event = some s') :
    ∃ code indexes, s' = s.advance loc { s.pool.shared with indexes := indexes } (.replying code) ∧
      ¬ Searchable loc ell (indexes (ell.transform update.key)) update := by
  have own := handling.own update (.inr rfl)
  rcases handle_spec handling stepped with ⟨req, rfl, -⟩ | ⟨rfl, -, rfl⟩ |
    ⟨error, other, rfl, -, rfl⟩
  · exact absurd trivial missed
  · refine ⟨200, setIndexes ell s.pool.shared.indexes update.key (update.indexes loc), rfl,
      fun searchable => missed fun _ other uploaded => ?_⟩
    cases own.symm.trans uploaded
    rw [setIndexes, Function.update_self] at searchable
    exact searchable_indexSet.mp searchable
  · refine ⟨503, s.pool.shared.indexes, rfl, fun searchable => missed fun _ other uploaded => ?_⟩
    cases own.symm.trans uploaded
    exact searchable

/-- **A step whose indexes do not arrive** ends in an upload answered and its document not
searchable. -/
theorem not_found_after {stage : Stage} {event answer : HandledEvent} {s'' : Server}
    (handling : Handling loc ell s stage) (missed : ¬ Arrives loc ell s event)
    (stepped : s.handle loc ell event = some s') (answered : s'.handle loc ell answer = some s'') :
    s''.Answered ∧ ¬ StoredSearchable loc ell s'' := by
  have waits : indexing (s.pool.threads s.current) = true := by
    by_contra idle
    cases event with
    | upload req => exact missed trivial
    | succeed => exact missed fun waits => absurd waits idle
    | fail error => exact missed fun waits => absurd waits idle
  rw [handling.current] at waits
  obtain ⟨update, rfl⟩ := Stage.eq_indexing waits
  have active : Stage.indexing update ≠ .answered := by rintro ⟨⟩
  have stored := handling.written update rfl
  obtain ⟨code, indexes, rfl, missing⟩ := missing_after handling missed stepped
  have replying : Handling loc ell
      (s.advance loc { s.pool.shared with indexes := indexes } (.replying code))
      (.replying code) :=
    handling.keep active rfl rfl (.inl ⟨code, rfl⟩)
  rcases handle_spec replying answered with ⟨req, rfl, idle, -⟩ | ⟨rfl, owing, rfl⟩ |
    ⟨error, other, rfl, staged, -⟩
  · cases replying.answered idle
  · refine ⟨(replying.succeed owing).ended, not_storedSearchable (stored.frame rfl rfl rfl) missing⟩
  · rcases staged with staged | staged <;> cases staged

/-- **Stored means searchable**, exactly while the indexes arrive: in every run where they do, every
document stored is searchable whenever all uploads are answered; a step where they do not leaves
one that is not, once its upload is answered. -/
theorem stored_searchable (loc : Locale) (ell : Elliptics) :
    (∀ events s, Run (handle loc ell) (Arrives loc ell) new events s → s.Answered →
      StoredSearchable loc ell s) ∧
    ∀ events s event s' answer s'', Run (handle loc ell) AnyStep new events s →
      ¬ Arrives loc ell s event → s.handle loc ell event = some s' →
      s'.handle loc ell answer = some s'' → s''.Answered ∧ ¬ StoredSearchable loc ell s'' := by
  refine ⟨fun events s run answered id data stored => ?_,
    fun events s event s' answer s'' run missed stepped ended => ?_⟩
  · obtain ⟨stage, handling, found⟩ := exists_found run
    obtain ⟨j, update, holds, -⟩ := handling.holds id data stored
    refine ⟨j, update, holds, ?_⟩
    rcases found id j update holds with ⟨waits, -⟩ | searchable
    · rw [handling.answered answered] at waits
      cases waits
    · exact searchable
  · obtain ⟨stage, handling⟩ := exists_handling run
    exact not_found_after handling missed stepped ended

/-! ### A first upload -/

/-- The first upload's document cannot be written; both operations of the second, under the same
name, succeed. -/
def retried : List HandledEvent :=
  [.upload (request ['x'] ⟨1, 0⟩), .fail (-5), .succeed,
    .upload (request ['x', ' ', 'y'] ⟨2, 0⟩), .succeed, .succeed, .succeed]

/-- A `set_indexes` succeeds, under names of distinct raw ids. -/
def distinctIds (loc : Locale) (ell : Elliptics) (s : Server) : HandledEvent → Bool
  | .upload _ => true
  | .succeed => !indexing (s.pool.threads s.current) ||
    (s.upload s.current).all fun update => decide (update.ids loc ell).Nodup
  | .fail _ => !indexing (s.pool.threads s.current)

theorem arrives_of_distinctIds (s : Server) (event : HandledEvent)
    (distinct : distinctIds loc ell s event = true) : Arrives loc ell s event := by
  cases event with
  | upload req => trivial
  | succeed =>
    intro waits update uploaded
    simp only [distinctIds, waits, uploaded, Bool.not_true, Bool.false_or, Option.all_some,
      decide_eq_true_eq] at distinct
    exact Update.kept_of_nodup distinct
  | fail error =>
    intro waits
    simp only [distinctIds, waits, Bool.not_true, Bool.false_eq_true] at distinct

theorem retried_runs :
    (exec (handle .ascii .plain) (distinctIds .ascii .plain) new retried).isSome = true := by
  decide +kernel

theorem retried_answered : (endState retried_runs).Answered := by
  decide +kernel

theorem stored_searchable_retried :
    StoredSearchable .ascii .plain (endState retried_runs) :=
  (stored_searchable .ascii .plain).1 retried _
    (Run.of_endState arrives_of_distinctIds retried_runs) retried_answered

/-- The document of a first upload is written, its indexes are not set. -/
def unindexed : List HandledEvent :=
  [.upload (request ['x'] ⟨1, 0⟩), .succeed, .fail (-5), .succeed]

theorem unindexed_runs :
    (exec (handle .ascii .plain) (fun _ _ => true) new unindexed).isSome = true := by
  decide +kernel

/-- The document stored, and no index set. -/
theorem unindexed_object :
    (endState unindexed_runs).Answered ∧
      (endState unindexed_runs).pool.shared.writer (Elliptics.plain.transform ['n']) = some 0 ∧
      ((endState unindexed_runs).pool.shared.content (Elliptics.plain.transform ['n'])).isSome ∧
      (endState unindexed_runs).upload 0 = some ⟨['n'], ['x'], ⟨1, 0⟩, ['a', 'l', 'l']⟩ ∧
      ((endState unindexed_runs).pool.shared.indexes (Elliptics.plain.transform ['n'])).map
        Prod.fst = [] := by
  decide +kernel

/-- **The document is stored and under no index.** -/
theorem stored_unindexed :
    ∃ s, Run (handle .ascii .plain) AnyStep new unindexed s ∧ s.Answered ∧
      ¬ StoredSearchable .ascii .plain s := by
  obtain ⟨answered, wrote, stored, uploaded, ids⟩ := unindexed_object
  refine ⟨endState unindexed_runs, Run.of_endState (fun _ _ _ => trivial) unindexed_runs, answered,
    fun all => ?_⟩
  obtain ⟨data, stored⟩ := Option.isSome_iff_exists.mp stored
  obtain ⟨j, update, holds, searchable⟩ := all _ data stored
  cases wrote.symm.trans holds.writer
  cases uploaded.symm.trans holds.uploaded
  have listed := searchable.base (by decide)
  rw [ids] at listed
  cases listed

end Server

end Wookie
