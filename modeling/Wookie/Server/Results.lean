/-
**What a search finds of the documents that were uploaded.**

Uploads interleave, those of one name too. As long as no upload sets its indexes over those of a
later document (`InOrder`), an object's indexes are those of the document stored for it once all
uploads are answered, so a search is about what is stored.

* `stored` — the uploads whose documents are stored.
* `indexes_eq_ofUpdates` — the indexes are those of these uploads made one after another.
* `search_finds_stored` — **a search completes, and finds exactly the objects whose stored document
  has what the search looks for**: the words and the phrase, where the phrase repeats no word.
-/

import Wookie.Search.Reindexed
import Wookie.Server.Upload

namespace Wookie.Server

open Library

/-- The uploads whose documents are stored, in the order of their requests. -/
def stored (ell : Elliptics) (s : Server) : List Update :=
  (List.range s.pool.spawned).filterMap fun i => (s.upload i).filter fun update =>
    s.pool.shared.writer (ell.transform update.key) == some i

variable {loc : Locale} {ell : Elliptics} {s : Server} {id : RawId} {i : ℕ} {update : Update}

theorem mem_stored : update ∈ stored ell s ↔ ∃ i < s.pool.spawned, s.upload i = some update ∧
    s.pool.shared.writer (ell.transform update.key) = some i := by
  simp only [stored, List.mem_filterMap, List.mem_range, Option.filter_eq_some_iff, beq_iff_eq]

/-- Every object that was written holds the document of an upload, and its indexes. -/
structure Settled (loc : Locale) (ell : Elliptics) (s : Server) : Prop where
  unwritten : ∀ id, s.pool.shared.writer id = none →
    s.pool.shared.content id = none ∧ s.pool.shared.indexes id = []
  written : ∀ id i, s.pool.shared.writer id = some i → i < s.pool.spawned ∧
    ∃ update, s.upload i = some update ∧ ObjectMatches loc ell s id update

theorem Settled.of_run {events : List ServerEvent}
    (run : Run (step loc ell) (InOrder loc ell) new events s) (answered : s.Answered) :
    Settled loc ell s := by
  obtain ⟨stages, consistent⟩ := exists_consistent run
  refine ⟨consistent.unwritten, fun id i wrote => ?_⟩
  obtain ⟨update, stored⟩ := consistent.written id i wrote
  have ended := answered i stored.started
  rw [consistent.threads i] at ended
  refine ⟨stored.started, update, stored.uploaded, stored.object, stored.content,
    stored.indexes.resolve_left fun waits => ?_⟩
  rw [Stage.eq_answered ended] at waits
  cases waits

namespace Settled

/-- **The update that last set an object's indexes** is the one whose document it holds. -/
theorem lastIndexed_eq (settled : Settled loc ell s) (wrote : s.pool.shared.writer id = some i)
    (uploaded : s.upload i = some update) (own : ell.transform update.key = id) :
    lastIndexed loc ell (stored ell s) id =
      if (update.indexes loc).isEmpty then none else some update := by
  -- all updates of the object are this one
  have only : ∀ other ∈ (stored ell s).filter fun other =>
      ell.transform other.key == id && !(other.indexes loc).isEmpty, other = update := by
    intro other member
    obtain ⟨listed, same⟩ := List.mem_filter.mp member
    obtain ⟨j, -, uploaded', wrote'⟩ := mem_stored.mp listed
    rw [beq_iff_eq.mp (Bool.and_eq_true_iff.mp same).1, wrote] at wrote'
    cases wrote'
    exact Option.some.inj (uploaded'.symm.trans uploaded)
  by_cases empty : (update.indexes loc).isEmpty = true
  · rw [if_pos empty, lastIndexed, List.getLast?_eq_none_iff, List.eq_nil_iff_forall_not_mem]
    intro other member
    have same := only other member
    subst same
    simp [empty] at member
  · rw [if_neg empty]
    have listed : update ∈ stored ell s :=
      mem_stored.mpr ⟨i, (settled.written id i wrote).1, uploaded, own ▸ wrote⟩
    have member : update ∈ (stored ell s).filter fun other =>
        ell.transform other.key == id && !(other.indexes loc).isEmpty :=
      List.mem_filter.mpr ⟨listed, by simp [own, empty]⟩
    obtain ⟨newest, last⟩ := Option.isSome_iff_exists.mp
      (List.getLast?_isSome.mpr (List.ne_nil_of_mem member))
    exact last.trans (congrArg some (only newest (List.mem_of_getLast? last)))

/-- An object that no upload wrote has no update. -/
theorem lastIndexed_none (unwritten : s.pool.shared.writer id = none) :
    lastIndexed loc ell (stored ell s) id = none := by
  cases newest : lastIndexed loc ell (stored ell s) id with
  | none => rfl
  | some update =>
    obtain ⟨listed, own⟩ := mem_of_lastIndexed newest
    obtain ⟨i, -, -, wrote⟩ := mem_stored.mp listed
    rw [own, unwritten] at wrote
    cases wrote

/-- **The indexes are those of the documents stored**, uploaded one after another. -/
theorem indexes_eq_ofUpdates (settled : Settled loc ell s) :
    s.pool.shared.indexes = Indexes.ofUpdates loc ell (stored ell s) := by
  funext id
  rw [ofUpdates_apply]
  cases wrote : s.pool.shared.writer id with
  | none =>
    rw [lastIndexed_none wrote]
    exact (settled.unwritten id wrote).2
  | some i =>
    obtain ⟨-, update, uploaded, matched⟩ := settled.written id i wrote
    rw [settled.lastIndexed_eq wrote uploaded matched.object, matched.indexes]
    by_cases empty : (update.indexes loc).isEmpty = true
    · rw [if_pos empty, Update.indexSet, List.isEmpty_iff.mp empty]
      exact List.eq_nil_iff_forall_not_mem.mpr fun index member =>
        List.not_mem_nil (ell.mem_of_mem_indexSet member)
    · rw [if_neg empty]
      rfl

/-- A document with what a query asks for has indexes. -/
theorem indexes_nonempty (ell : Elliptics) {query : FindResult.Query}
    (hasWord : query.words loc ≠ []) (has : FindResult.Has loc query update.content) :
    ¬ (update.indexes loc).isEmpty = true := by
  obtain ⟨word, asked⟩ := List.exists_mem_of_ne_nil _ hasWord
  have listed : ell.transform word ∈ update.ids loc ell :=
    mem_ids.mpr ⟨word, rfl, .inl (has.1 word asked)⟩
  intro empty
  rw [Update.ids, List.isEmpty_iff.mp empty] at listed
  cases listed

/-- **What the update that last set an object's indexes has is what its stored document has.** -/
theorem lastIndexed_iff_content (settled : Settled loc ell s) {query : FindResult.Query}
    (hasWord : query.words loc ≠ []) :
    (∃ update, lastIndexed loc ell (stored ell s) id = some update ∧
        FindResult.Has loc query update.content) ↔
      ∃ doc, s.pool.shared.content id = some (packDocument doc) ∧
        FindResult.Has loc query doc.data := by
  cases wrote : s.pool.shared.writer id with
  | none =>
    rw [lastIndexed_none wrote, (settled.unwritten id wrote).1]
    constructor
    · rintro ⟨update, newest, -⟩
      cases newest
    · rintro ⟨doc, held, -⟩
      cases held
  | some i =>
    obtain ⟨-, update, uploaded, matched⟩ := settled.written id i wrote
    rw [settled.lastIndexed_eq wrote uploaded matched.object, matched.content]
    constructor
    · rintro ⟨other, newest, has⟩
      split at newest
      · cases newest
      · cases newest
        exact ⟨_, rfl, has⟩
    · rintro ⟨doc, same, has⟩
      have read := congrArg unpackDocument (Option.some.inj same)
      rw [unpackDocument_packDocument, unpackDocument_packDocument] at read
      cases read
      exact ⟨update, if_neg (indexes_nonempty ell hasWord has), has⟩

end Settled

/-- **A search is about the documents stored.** However uploads interleave, as long as none sets its
indexes over those of a later document, or stores a document without indexes over one that has some:
once all are answered, a search that asks for no base index of a document found completes, and the
ids it finds are those of the objects whose stored document has the words of the query and those of
its phrase, each of these once, one behind the other. Where the phrase repeats no word, it has the
words and the phrase. -/
theorem search_finds_stored (loc : Locale) (ell : Elliptics) (events : List ServerEvent)
    (s : Server) (run : Run (step loc ell) (InOrder loc ell) new events s) (answered : s.Answered)
    (query : FindResult.Query) (hasWord : query.words loc ≠ [])
    (apart : FindResult.Apart loc ell query (stored ell s))
    (noBase : FindResult.NoBaseAsked loc ell (stored ell s)
      (transformTokens ell (query.names loc)))
    {request : FindResult.FindRequest} {names : List Str} {result : List FindResult.Entry}
    (found : FindResult.Answered loc ell s.pool.shared.indexes query.text request names result) :
    FindResult.Completes request result ∧
      (∀ id, id ∈ (FindResult.onResultReady request result none .new).1.resultIds ↔
        ∃ doc, s.pool.shared.content id = some (packDocument doc) ∧
          FindResult.Has loc query doc.data) ∧
      (FindResult.NoRepeats loc query → ∀ id,
        id ∈ (FindResult.onResultReady request result none .new).1.resultIds ↔
          ∃ doc, s.pool.shared.content id = some (packDocument doc) ∧
            FindResult.Matches loc query doc.data) := by
  have settled := Settled.of_run run answered
  rw [settled.indexes_eq_ofUpdates] at found
  have exact : ∀ id, id ∈ (FindResult.onResultReady request result none .new).1.resultIds ↔
      ∃ doc, s.pool.shared.content id = some (packDocument doc) ∧
        FindResult.Has loc query doc.data := fun id =>
    (FindResult.found_iff_lastIndexed hasWord apart found noBase).trans
      (settled.lastIndexed_iff_content hasWord)
  refine ⟨FindResult.completes_of_noBaseAsked found noBase, exact, fun distinct id => ?_⟩
  refine (exact id).trans (exists_congr fun doc => and_congr_right fun _ => ?_)
  exact FindResult.has_iff_matches distinct

/-! ### Two uploads of one name -/

/-- The second upload's document is stored, and its indexes are set last. -/
def uploadedTwice : List ServerEvent :=
  [.upload (request ['x'] ⟨1, 0⟩), .upload (request ['a', ' ', 'b', ' ', 'c'] ⟨2, 0⟩), .thread 0,
    .thread 1, .thread 0, .thread 1, .thread 0, .thread 1]

theorem uploadedTwice_runs :
    (exec (step .ascii .plain) (inOrder .ascii .plain) new uploadedTwice).isSome = true := by
  decide +kernel

theorem uploadedTwice_inOrder : Run (step .ascii .plain) (InOrder .ascii .plain) new uploadedTwice
    (endState uploadedTwice_runs) :=
  Run.of_endState (fun _ _ ordered => ordered) uploadedTwice_runs

theorem uploadedTwice_answered : Answered (endState uploadedTwice_runs) := by
  unfold Answered
  decide +kernel

theorem uploadedTwice_stored : stored .plain (endState uploadedTwice_runs) =
    [⟨['n'], ['a', ' ', 'b', ' ', 'c'], ⟨2, 0⟩, ['a', 'l', 'l']⟩] := by decide +kernel

theorem uploadedTwice_apart : FindResult.Apart .ascii .plain FindResult.twoWords
    (stored .plain (endState uploadedTwice_runs)) := by
  have known : ∀ other, (other ∈ FindResult.twoWords.words .ascii ∨
      ∃ update ∈ stored .plain (endState uploadedTwice_runs),
        other ∈ Locale.ascii.words update.content) → other ∈ [['a'], ['b'], ['c']] := by
    rintro other (asked | ⟨update, listed, member⟩)
    · revert asked
      exact List.forall_iff_forall_mem.mp (by decide +kernel) other
    · rw [uploadedTwice_stored, List.mem_singleton] at listed
      subst listed
      revert member
      exact List.forall_iff_forall_mem.mp (by decide +kernel) other
  have distinct : ∀ v ∈ [['a'], ['b'], ['c']], ∀ w ∈ [['a'], ['b'], ['c']],
      Elliptics.plain.transform v = Elliptics.plain.transform w → v = w := by decide +kernel
  exact fun word asked other concerned same =>
    distinct word (known word (.inl asked)) other (known other concerned) same

/-- It is found by the second document. -/
theorem search_finds_stored_uploadedTwice :
    Elliptics.plain.transform ['n'] ∈ (FindResult.onResultReady
        (FindResult.twoWords.request .ascii .plain)
        (FindResult.findAllIndexes .ascii .plain (stored .plain (endState uploadedTwice_runs))
          (transformTokens .plain (FindResult.twoWords.names .ascii))) none .new).1.resultIds ↔
      ∃ doc, (endState uploadedTwice_runs).pool.shared.content (Elliptics.plain.transform ['n']) =
          some (packDocument doc) ∧ FindResult.Matches .ascii FindResult.twoWords doc.data :=
  (search_finds_stored .ascii .plain uploadedTwice (endState uploadedTwice_runs)
    uploadedTwice_inOrder uploadedTwice_answered FindResult.twoWords (by decide +kernel)
    uploadedTwice_apart (by
      rw [uploadedTwice_stored]
      rintro id update newest -
      rw [List.mem_singleton.mp (mem_of_lastIndexed newest).1]
      exact .inr (by decide +kernel))
    ⟨FindResult.find_query _ _ _, by
      rw [(Settled.of_run uploadedTwice_inOrder uploadedTwice_answered).indexes_eq_ofUpdates]
      exact FindResult.returned_findAllIndexes _ _ _ _⟩).2.2 FindResult.noRepeats_twoWords _

end Wookie.Server
