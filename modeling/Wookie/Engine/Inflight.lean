/-
**The in-flight map and who holds a URL.**

Fix one URL string `key`. A downloader thread relates to it in three phases (`LinkPhase`): it is
`idle`; it has `inserted` the key into the in-flight map and is about to read the page cache; it is
`cleared` to hand a request to the downloader. `linkState` is the protocol, and
`processReply_follows` shows that `process_reply` keeps to it whatever the answers are.

`Exclusive` is what the map buys: at most one thread is past its insertion, no request of the link
loop for the key is outstanding then, and otherwise there is at most one. Every step preserves it
but one (`Separate`): the answer to a request of `engine::download`, which made no entry in the map,
and whose answer erases the entry of a link (`Exclusive.step`).
-/

import Mathlib.Data.List.Perm.Basic
import Wookie.Engine.System

namespace Wookie

open Library

variable {Url : Type}

/-- How far a thread is with one URL. -/
inductive LinkPhase
  | idle
  | inserted
  | cleared
  deriving DecidableEq

namespace EngineData

variable (e : EngineData Url)

/-- The phase after an insertion of the key. -/
def afterInsert (φ : LinkPhase) (inserted : Bool) : LinkPhase :=
  if φ = .idle ∧ inserted = true then .inserted else φ

/-- The phase after the page-cache read of an inserted key. -/
def afterRead (φ : LinkPhase) (file : Option DataPointer) : LinkPhase :=
  if φ = .inserted then
    match file with
    | none => .cleared
    | some file =>
      match unpackDocument file with
      | .error _ => .inserted
      | .ok doc => if doc.ts.before e.generationTime then .cleared else .idle
  else φ

/-- **The protocol on one URL.** An insertion of an idle thread carries an empty document; the
second insertion of a cleared one is expected to find the key; only a cleared thread submits. -/
def linkState (key : Str) : Typestate (@EngineAnswer Url) LinkPhase where
  may φ
    | .insertInflight other doc => other = key → φ = .idle ∧ doc.data = [] ∨ φ = .cleared
    | .eraseInflight _ => False
    | .feed url _ => e.swarm.toString url = key → φ = .cleared
    | _ => True
  expects φ
    | .insertInflight other _, inserted => other = key → φ = .cleared → inserted = false
    | _, _ => True
  after φ
    | .insertInflight other _, inserted =>
      if other = key then afterInsert φ inserted else φ
    | .readData other, file => if other = key then e.afterRead φ file else φ
    | .feed url _, _ => if e.swarm.toString url = key then .idle else φ
    | _, _ => φ

variable {e} {key : Str}

theorem afterRead_stale {file : DataPointer} {doc : Document}
    (read : unpackDocument file = .ok doc) (stale : doc.ts.before e.generationTime = true) :
    e.afterRead .inserted (some file) = .cleared := by
  simp only [afterRead, if_true, read, stale]

theorem afterRead_fresh {file : DataPointer} {doc : Document}
    (read : unpackDocument file = .ok doc) (fresh : doc.ts.before e.generationTime = false) :
    e.afterRead .inserted (some file) = .idle := by
  simp only [afterRead, if_true, read, fresh, Bool.false_eq_true, if_false]

/-! ### `process_reply` keeps to the protocol -/

section Protocol

variable {α : Type} {φ : LinkPhase} {final : LinkPhase → Prop}

theorem follows_insert_own {doc : Document} {next : Bool → EngineProgram Url α}
    (may : φ = .idle ∧ doc.data = [] ∨ φ = .cleared)
    (rest : ∀ inserted, (φ = .cleared → inserted = false) →
      Follows (e.linkState key) final (afterInsert φ inserted) (next inserted)) :
    Follows (e.linkState key) final φ (.op (.insertInflight key doc) next) := by
  refine ⟨fun _ => may, fun inserted expected => ?_⟩
  have step := rest inserted (expected rfl)
  simp only [linkState, if_true]
  exact step

theorem follows_insert_other {other : Str} {doc : Document} {next : Bool → EngineProgram Url α}
    (different : other ≠ key)
    (rest : ∀ inserted, Follows (e.linkState key) final φ (next inserted)) :
    Follows (e.linkState key) final φ (.op (.insertInflight other doc) next) := by
  refine ⟨fun same => absurd same different, fun inserted _ => ?_⟩
  have step := rest inserted
  simp only [linkState, different, if_false]
  exact step

theorem follows_read_own {next : Option DataPointer → EngineProgram Url α}
    (rest : ∀ file, Follows (e.linkState key) final (e.afterRead φ file) (next file)) :
    Follows (e.linkState key) final φ (.op (.readData key) next) := by
  refine ⟨trivial, fun file _ => ?_⟩
  have step := rest file
  simp only [linkState, if_true]
  exact step

theorem follows_read_other {other : Str} {next : Option DataPointer → EngineProgram Url α}
    (different : other ≠ key) (rest : ∀ file, Follows (e.linkState key) final φ (next file)) :
    Follows (e.linkState key) final φ (.op (.readData other) next) := by
  refine ⟨trivial, fun file _ => ?_⟩
  have step := rest file
  simp only [linkState, different, if_false]
  exact step

theorem follows_feed_own {url : Url} {doc : Option Document} {next : Unit → EngineProgram Url α}
    (same : e.swarm.toString url = key)
    (rest : Follows (e.linkState key) final .idle (next ())) :
    Follows (e.linkState key) final .cleared (.op (.feed url doc) next) := by
  refine ⟨fun _ => rfl, fun _ _ => ?_⟩
  simp only [linkState, same, if_true]
  exact rest

theorem follows_feed_other {url : Url} {doc : Option Document} {next : Unit → EngineProgram Url α}
    (different : e.swarm.toString url ≠ key)
    (rest : Follows (e.linkState key) final φ (next ())) :
    Follows (e.linkState key) final φ (.op (.feed url doc) next) := by
  refine ⟨fun same => absurd same different, fun _ _ => ?_⟩
  simp only [linkState, different, if_false]
  exact rest

theorem linkState_neutral {data : Str} : Neutral (e.linkState key) data .idle where
  time := ⟨trivial, fun _ => rfl⟩
  write _ _ _ := ⟨trivial, fun _ => rfl⟩
  wait _ := ⟨trivial, fun _ => rfl⟩
  processing _ := ⟨trivial, fun _ => rfl⟩
  process _ _ _ := ⟨trivial, fun _ => rfl⟩

/-- The page-cache read of another URL. -/
theorem readFinished_other (reply : Response Url) (data : Str) {requestUrl : Url}
    (different : e.swarm.toString requestUrl ≠ key) (file : Option DataPointer) :
    Follows (e.linkState key) (· = .idle) .idle (e.readFinished reply data requestUrl file) := by
  cases file with
  | none => exact follows_feed_other different rfl
  | some file =>
    rcases e.read_cases file with ⟨_, unreadable⟩ | ⟨doc, read, stale⟩ | ⟨doc, read, fresh⟩
    · rw [readFinished_error unreadable]
      trivial
    · rw [readFinished_stale read stale]
      exact follows_insert_other different fun _ =>
        follows_feed_other different (linkState_neutral.callModified reply _)
    · rw [readFinished_fresh read fresh]
      exact rfl

/-- **The request of a link to another URL** moves nothing. -/
theorem requestLink_other (reply : Response Url) (data : Str) {requestUrl : Url}
    (different : e.swarm.toString requestUrl ≠ key) :
    Follows (e.linkState key) (· = .idle) .idle (e.requestLink reply data requestUrl) := by
  refine ⟨trivial, fun now _ => follows_insert_other different fun inserted => ?_⟩
  cases inserted with
  | false => exact rfl
  | true => exact follows_read_other different (readFinished_other reply data different)

/-- The page-cache read of the key, by the thread that inserted it. -/
theorem readFinished_own (reply : Response Url) (data : Str) (requestUrl : Url)
    (file : Option DataPointer) :
    Follows (e.linkState (e.swarm.toString requestUrl)) (· = .idle)
      (e.afterRead .inserted file) (e.readFinished reply data requestUrl file) := by
  cases file with
  | none => exact follows_feed_own rfl rfl
  | some file =>
    rcases e.read_cases file with ⟨_, unreadable⟩ | ⟨doc, read, stale⟩ | ⟨doc, read, fresh⟩
    · rw [readFinished_error unreadable]
      trivial
    · rw [readFinished_stale read stale, afterRead_stale read stale]
      exact follows_insert_own (Or.inr rfl) fun again _ =>
        follows_feed_own rfl (linkState_neutral.callModified reply _)
    · rw [readFinished_fresh read fresh, afterRead_fresh read fresh]
      exact rfl

/-- **The request of a link to the key**: the thread inserts, reads, and submits only if the read
clears it. -/
theorem requestLink_own (reply : Response Url) (data : Str) (requestUrl : Url) :
    Follows (e.linkState (e.swarm.toString requestUrl)) (· = .idle) .idle
      (e.requestLink reply data requestUrl) := by
  refine ⟨trivial, fun now _ => follows_insert_own (Or.inl ⟨rfl, rfl⟩) fun inserted _ => ?_⟩
  cases inserted with
  | false => exact rfl
  | true => exact follows_read_own (readFinished_own reply data requestUrl)

/-- **`process_reply` keeps to the protocol of every URL**, from idle to idle. -/
theorem processReply_follows (reply : Response Url) (data : Str) :
    Follows (e.linkState key) (· = .idle) .idle (e.processReply reply data) := by
  refine linkState_neutral.processReply fun href _ => ?_
  by_cases same : e.swarm.toString (e.requestUrl reply href) = key
  · exact same ▸ requestLink_own reply data _
  · exact requestLink_other reply data same

theorem afterErase_follows (reply : Response Url) (data : Str) (error : Bool) (oldDoc : Document) :
    Follows (e.linkState key) (fun _ => True) .idle (e.afterErase reply data error oldDoc) := by
  unfold afterErase
  split
  · trivial
  · split
    · exact (processReply_follows reply data).mono fun _ _ => trivial
    · exact (processReply_follows reply oldDoc.data).mono fun _ _ => trivial

end Protocol

/-! ### One holder for each URL -/

/-- A request for the key. -/
def requests (e : EngineData Url) (key : Str) (request : Request Url) : Bool :=
  e.swarm.toString request.url == key

/-- A request of the link loop for the key. -/
def linkRequests (e : EngineData Url) (key : Str) (request : Request Url) : Bool :=
  request.origin == .link && e.requests key request

theorem requests_iff {request : Request Url} :
    e.requests key request = true ↔ e.swarm.toString request.url = key := by
  simp [requests]

theorem linkRequests_iff {request : Request Url} :
    e.linkRequests key request = true ↔
      request.origin = .link ∧ e.swarm.toString request.url = key := by
  simp [linkRequests, requests]

/-- **The condition on a step**: a request of `engine::download` for the key, which made no entry in
the map, finds none to erase when it is answered. -/
def Separate (e : EngineData Url) (key : Str) (pool : EnginePool Url) : EngineAction Url → Prop
  | .complete n _ _ _ _ _ => ∀ request, pool.shared.outstanding[n]? = some request →
      request.origin = .direct → e.requests key request = true → key ∉ pool.shared.inflight
  | _ => True

/-- The condition for every key at once, evaluated. -/
def separate (e : EngineData Url) (pool : EnginePool Url) : EngineAction Url → Bool
  | .complete n _ _ _ _ _ =>
    match pool.shared.outstanding[n]? with
    | some request => request.origin == .link ||
        !pool.shared.inflight.contains (e.swarm.toString request.url)
    | none => true
  | _ => true

theorem separate_of_eval {pool : EnginePool Url} {action : EngineAction Url}
    (holds : e.separate pool action = true) : e.Separate key pool action := by
  cases action with
  | complete n url code headers data error =>
    intro request found origin own registered
    have same := requests_iff.mp own
    simp [separate, found, origin, same, Std.TreeMap.contains_iff_mem.mpr registered] at holds
  | _ => trivial

/-- **At most one holder of the key**: a thread past its insertion, or an outstanding request of the
link loop. The phases of the threads are a ghost. -/
structure Exclusive (e : EngineData Url) (key : Str) (phases : ℕ → LinkPhase)
    (pool : EnginePool Url) : Prop where
  keeps : Pool.Keeps (e.linkState key) phases pool
  alone : ∀ i j, phases i ≠ .idle → phases j ≠ .idle → i = j
  holder_registered : ∀ i, phases i ≠ .idle → key ∈ pool.shared.inflight
  holder_quiet : ∀ i, phases i ≠ .idle →
    pool.shared.outstanding.countP (e.linkRequests key) = 0
  link_registered : 0 < pool.shared.outstanding.countP (e.linkRequests key) →
    key ∈ pool.shared.inflight
  link_alone : pool.shared.outstanding.countP (e.linkRequests key) ≤ 1
  empty_data : ∀ doc, pool.shared.inflight[key]? = some doc → doc.data = []

namespace Exclusive

variable {phases : ℕ → LinkPhase} {pool pool' : EnginePool Url}

/-- The engine starts with no holder. -/
theorem initial (e : EngineData Url) (key : Str) (pageCache : Str → Option DataPointer) :
    Exclusive e key (fun _ => .idle) (e.initial pageCache) where
  keeps _ := trivial
  alone _ _ holds := absurd rfl holds
  holder_registered _ holds := absurd rfl holds
  holder_quiet _ holds := absurd rfl holds
  link_registered some_left := absurd some_left (Nat.lt_irrefl 0)
  link_alone := Nat.zero_le 1
  empty_data doc found := by simp [EngineData.initial] at found

/-- Without a holder and without requests of the link loop. -/
theorem free (keeps : Pool.Keeps (e.linkState key) phases pool) (idle : ∀ i, phases i = .idle)
    (quiet : pool.shared.outstanding.countP (e.linkRequests key) = 0)
    (empty : ∀ doc, pool.shared.inflight[key]? = some doc → doc.data = []) :
    Exclusive e key phases pool where
  keeps := keeps
  alone i _ holds := absurd (idle i) holds
  holder_registered i holds := absurd (idle i) holds
  holder_quiet i holds := absurd (idle i) holds
  link_registered some_left := by omega
  link_alone := by omega
  empty_data := empty

/-- Steps that leave the map and the link loop's requests for the key alone, and in which no idle
thread becomes a holder. -/
theorem frame {phases' : ℕ → LinkPhase} (exclusive : Exclusive e key phases pool)
    (keeps : Pool.Keeps (e.linkState key) phases' pool')
    (shrink : ∀ i, phases' i ≠ .idle → phases i ≠ .idle)
    (entry : pool'.shared.inflight[key]? = pool.shared.inflight[key]?)
    (count : pool'.shared.outstanding.countP (e.linkRequests key) =
      pool.shared.outstanding.countP (e.linkRequests key)) :
    Exclusive e key phases' pool' := by
  have registered : key ∈ pool.shared.inflight → key ∈ pool'.shared.inflight := fun member => by
    rwa [Std.TreeMap.mem_iff_isSome_getElem?, entry, ← Std.TreeMap.mem_iff_isSome_getElem?]
  exact {
    keeps := keeps
    alone := fun i j first second => exclusive.alone i j (shrink i first) (shrink j second)
    holder_registered := fun i holds => registered (exclusive.holder_registered i (shrink i holds))
    holder_quiet := fun i holds => by rw [count]; exact exclusive.holder_quiet i (shrink i holds)
    link_registered := fun some_left => registered (exclusive.link_registered (count ▸ some_left))
    link_alone := by rw [count]; exact exclusive.link_alone
    empty_data := by rw [entry]; exact exclusive.empty_data }

/-- `engine::download`. -/
theorem download (exclusive : Exclusive e key phases pool) (url : Url) :
    Exclusive e key phases { pool with shared := pool.shared.submit ⟨url, none, .direct⟩ } := by
  have count : (pool.shared.submit ⟨url, none, .direct⟩).outstanding.countP (e.linkRequests key) =
      pool.shared.outstanding.countP (e.linkRequests key) := by
    simp [EngineState.submit, List.countP_append, linkRequests]
  exact exclusive.frame exclusive.keeps (fun _ => id) rfl count

/-- A phase that is set to a holder's only where a holder was. -/
theorem shrink_update {i : ℕ} {φ : LinkPhase} (shrink : φ ≠ .idle → phases i ≠ .idle) (j : ℕ)
    (holds : Function.update phases i φ j ≠ .idle) : phases j ≠ .idle := by
  by_cases same : j = i
  · subst same
    rw [Function.update_self] at holds
    exact shrink holds
  · rwa [Function.update_of_ne same] at holds

/-- Taking one request away leaves one less of its kind. -/
theorem countP_eraseIdx {n : ℕ} {request : Request Url} {outstanding : List (Request Url)}
    (found : outstanding[n]? = some request) (kind : Request Url → Bool) :
    outstanding.countP kind =
      (outstanding.eraseIdx n).countP kind + if kind request = true then 1 else 0 := by
  obtain ⟨bound, rfl⟩ := List.getElem?_eq_some_iff.mp found
  have whole := List.Perm.countP_eq kind (List.getElem_cons_eraseIdx_perm bound)
  rw [← whole, List.countP_cons]

/-- **Nobody holds the key once its request is answered**: a request of the link loop was alone, and
one of `engine::download` finds no entry. -/
theorem released {n : ℕ} {request : Request Url} (exclusive : Exclusive e key phases pool)
    (found : pool.shared.outstanding[n]? = some request) (own : e.requests key request = true)
    (separate : request.origin = .direct → key ∉ pool.shared.inflight) :
    (∀ i, phases i = .idle) ∧
      (pool.shared.outstanding.eraseIdx n).countP (e.linkRequests key) = 0 := by
  have count := countP_eraseIdx found (e.linkRequests key)
  cases origin : request.origin with
  | direct =>
    have absent := separate origin
    constructor
    · intro i
      by_contra holds
      exact absent (exclusive.holder_registered i holds)
    · by_contra some_left
      exact absent (exclusive.link_registered (by omega))
  | link =>
    have mine : e.linkRequests key request = true := by simp [linkRequests, origin, own]
    have one := exclusive.link_alone
    rw [if_pos mine] at count
    constructor
    · intro i
      by_contra holds
      have quiet := exclusive.holder_quiet i holds
      omega
    · omega

/-- **A completion** frees the key, if it is the key's. -/
theorem complete {n : ℕ} {request : Request Url} {error : Bool} {c : EngineProgram Url Unit}
    (exclusive : Exclusive e key phases pool) (found : pool.shared.outstanding[n]? = some request)
    (separate : request.origin = .direct → e.requests key request = true →
      key ∉ pool.shared.inflight)
    (follows : Follows (e.linkState key) (fun _ => True) .idle c) :
    Exclusive e key (Function.update phases pool.spawned .idle)
      (Pool.spawn { pool with shared := e.completedState n request error pool.shared } c) := by
  have keeps : Pool.Keeps (e.linkState key) (Function.update phases pool.spawned .idle)
      (Pool.spawn { pool with shared := e.completedState n request error pool.shared } c) :=
    Pool.Keeps.spawn exclusive.keeps follows
  have shrink : ∀ i, Function.update phases pool.spawned .idle i ≠ .idle → phases i ≠ .idle :=
    shrink_update fun holds => absurd rfl holds
  by_cases own : e.requests key request = true
  · obtain ⟨idle, quiet⟩ := exclusive.released found own fun origin => separate origin own
    have same := requests_iff.mp own
    refine free keeps (fun i => ?_) quiet fun doc stored => ?_
    · by_contra holds
      exact shrink i holds (idle i)
    · simp [Pool.spawn, completedState, same] at stored
  · have different : e.swarm.toString request.url ≠ key := fun same => own (requests_iff.mpr same)
    have other : ¬ e.linkRequests key request = true := fun mine =>
      different (linkRequests_iff.mp mine).2
    have count := countP_eraseIdx found (e.linkRequests key)
    rw [if_neg other, Nat.add_zero] at count
    refine exclusive.frame keeps shrink ?_ count.symm
    simp [Pool.spawn, completedState, different, Std.TreeMap.getElem?_erase]

section Thread

variable {i : ℕ}

/-- **An insertion.** A successful one of the key makes the thread its holder: nobody else holds the
key, for it was not in flight. -/
theorem thread_insert {other : Str} {doc : Document} {next : Bool → EngineProgram Url Unit}
    (exclusive : Exclusive e key phases pool)
    (thread : pool.threads i = .op (.insertInflight other doc) next) :
    Exclusive e key
      (Function.update phases i ((e.linkState key).after (phases i) (.insertInflight other doc)
        (!pool.shared.inflight.contains other : Bool)))
      { pool with
        shared := { pool.shared with inflight := pool.shared.inflight.insertIfNew other doc }
        threads :=
          Function.update pool.threads i (next (!pool.shared.inflight.contains other)) } := by
  have may : other = key → phases i = .idle ∧ doc.data = [] ∨ phases i = .cleared :=
    exclusive.keeps.may thread
  have expected : (e.linkState key).expects (phases i) (.insertInflight other doc)
      (!pool.shared.inflight.contains other : Bool) := by
    intro same cleared
    have registered := exclusive.holder_registered i fun idle => nomatch cleared.symm.trans idle
    show (!pool.shared.inflight.contains other) = false
    rw [same, Std.TreeMap.contains_iff_mem.mpr registered]
    rfl
  have keeps := exclusive.keeps.step thread expected
    { pool.shared with inflight := pool.shared.inflight.insertIfNew other doc }
  by_cases new : other = key ∧ key ∉ pool.shared.inflight
  · obtain ⟨rfl, absent⟩ := new
    have idle : ∀ j, phases j = .idle := fun j => by
      by_contra holds
      exact absent (exclusive.holder_registered j holds)
    have quiet : pool.shared.outstanding.countP (e.linkRequests other) = 0 := by
      by_contra some_left
      exact absent (exclusive.link_registered (by omega))
    have empty : doc.data = [] := by
      rcases may rfl with ⟨_, empty⟩ | cleared
      · exact empty
      · rw [idle i] at cleared
        cases cleared
    refine ⟨keeps, fun j k first second => ?_, fun _ _ => by simp, fun _ _ => quiet,
      fun _ => by simp, exclusive.link_alone, fun stored found => ?_⟩
    · -- only thread `i` has left `idle`
      have only : ∀ (φ : LinkPhase) (l : ℕ), Function.update phases i φ l ≠ .idle → l = i :=
        fun φ l holds => by
          by_contra different
          rw [Function.update_of_ne different] at holds
          exact holds (idle l)
      rw [only _ j first, only _ k second]
    · rw [insertIfNew_absent absent] at found
      cases found
      exact empty
  · have present : other = key → key ∈ pool.shared.inflight := fun same => by
      by_contra missing
      exact new ⟨same, missing⟩
    have unmoved : (e.linkState key).after (phases i) (.insertInflight other doc)
        (!pool.shared.inflight.contains other : Bool) = phases i := by
      by_cases same : other = key
      · have registered := Std.TreeMap.contains_iff_mem.mpr (present same)
        simp [linkState, afterInsert, same, registered]
      · simp [linkState, same]
    rw [unmoved] at keeps ⊢
    rw [Function.update_eq_self] at keeps ⊢
    exact exclusive.frame keeps (fun _ => id) (insertIfNew_unmoved present) rfl

/-- **A submission** hands the key from the thread to the downloader. -/
theorem thread_feed {url : Url} {doc : Option Document} {next : Unit → EngineProgram Url Unit}
    (exclusive : Exclusive e key phases pool) (thread : pool.threads i = .op (.feed url doc) next) :
    Exclusive e key
      (Function.update phases i ((e.linkState key).after (phases i) (.feed url doc) ()))
      { pool with
        shared := pool.shared.submit ⟨url, doc, .link⟩
        threads := Function.update pool.threads i (next ()) } := by
  have may : e.swarm.toString url = key → phases i = .cleared := exclusive.keeps.may thread
  have expected : (e.linkState key).expects (phases i) (.feed url doc) () := trivial
  have keeps := exclusive.keeps.step thread expected (pool.shared.submit ⟨url, doc, .link⟩)
  by_cases same : e.swarm.toString url = key
  · have holds : phases i ≠ .idle := by
      rw [may same]
      exact fun equal => nomatch equal
    have idle : ∀ j, Function.update phases i
        ((e.linkState key).after (phases i) (.feed url doc) ()) j = .idle := fun j => by
      by_cases mine : j = i
      · subst mine
        simp [linkState, same]
      · rw [Function.update_of_ne mine]
        by_contra other
        exact mine (exclusive.alone j i other holds)
    have count : (pool.shared.submit ⟨url, doc, .link⟩).outstanding.countP (e.linkRequests key) =
        1 := by
      simp [EngineState.submit, List.countP_append, exclusive.holder_quiet i holds, linkRequests,
        requests, same]
    exact ⟨keeps, fun j _ first => absurd (idle j) first, fun j first => absurd (idle j) first,
      fun j first => absurd (idle j) first, fun _ => exclusive.holder_registered i holds,
      count.le, exclusive.empty_data⟩
  · have unmoved : (e.linkState key).after (phases i) (.feed url doc) () = phases i := by
      simp [linkState, same]
    have count : (pool.shared.submit ⟨url, doc, .link⟩).outstanding.countP (e.linkRequests key) =
        pool.shared.outstanding.countP (e.linkRequests key) := by
      simp [EngineState.submit, List.countP_append, linkRequests, requests, same]
    rw [unmoved] at keeps ⊢
    rw [Function.update_eq_self] at keeps ⊢
    exact exclusive.frame keeps (fun _ => id) rfl count

/-- **A page-cache read**, whatever it finds, makes no idle thread a holder. -/
theorem thread_read {other : Str} {next : Option DataPointer → EngineProgram Url Unit}
    (exclusive : Exclusive e key phases pool) (thread : pool.threads i = .op (.readData other) next)
    (file : Option DataPointer) :
    Exclusive e key
      (Function.update phases i ((e.linkState key).after (phases i) (.readData other) file))
      { pool with threads := Function.update pool.threads i (next file) } := by
  refine exclusive.frame (exclusive.keeps.step thread trivial pool.shared)
    (shrink_update ?_) rfl rfl
  simp only [linkState, afterRead]
  split
  · split
    · rename_i inserted
      exact fun _ => by rw [inserted]; exact fun equal => nomatch equal
    · exact id
  · exact id

/-- **A thread's step** moves its phase by the protocol and keeps the key with one holder. -/
theorem thread {o : EngineOp Url} {next : EngineAnswer o → EngineProgram Url Unit}
    {answer : EngineAnswer o} {shared' : EngineState Url} (exclusive : Exclusive e key phases pool)
    (thread : pool.threads i = .op o next)
    (performed : o.perform pool.shared = some (answer, shared')) :
    Exclusive e key (Function.update phases i ((e.linkState key).after (phases i) o answer))
      { pool with shared := shared', threads := Function.update pool.threads i (next answer) } := by
  -- the questions that touch neither the map nor the requests, and let no idle thread hold
  have neutral : (e.linkState key).expects (phases i) o answer →
      ((e.linkState key).after (phases i) o answer ≠ .idle → phases i ≠ .idle) →
      shared'.inflight = pool.shared.inflight → shared'.outstanding = pool.shared.outstanding →
      Exclusive e key (Function.update phases i ((e.linkState key).after (phases i) o answer))
        { pool with shared := shared', threads := Function.update pool.threads i (next answer) } :=
    fun expected shrink inflight outstanding =>
      exclusive.frame (exclusive.keeps.step thread expected shared')
        (shrink_update shrink) (by rw [inflight]) (by rw [outstanding])
  cases o with
  | currentTime =>
    cases performed
    exact neutral trivial id rfl rfl
  | insertInflight other doc =>
    cases performed
    exact exclusive.thread_insert thread
  | eraseInflight other => exact (exclusive.keeps.may thread).elim
  | writeDocument doc =>
    cases performed
    exact neutral trivial id rfl rfl
  | wait result =>
    obtain rfl := perform_wait performed
    exact neutral trivial id rfl rfl
  | readData other =>
    cases performed
    exact exclusive.thread_read thread _
  | feed url doc =>
    cases performed
    exact exclusive.thread_feed thread
  | processing reply data =>
    cases performed
    exact neutral trivial id rfl rfl
  | process functor reply data type =>
    cases performed
    exact neutral trivial id rfl rfl

end Thread

/-- **Every step in which no request of `engine::download` erases the key's entry** keeps the key
with one holder. -/
theorem step {action : EngineAction Url} (exclusive : Exclusive e key phases pool)
    (separate : e.Separate key pool action) (stepped : e.step pool action = some pool') :
    ∃ phases', Exclusive e key phases' pool' := by
  cases action with
  | download url =>
    cases stepped
    exact ⟨phases, exclusive.download url⟩
  | complete n url code headers data error =>
    obtain ⟨request, found, rfl⟩ := e.step_complete stepped
    exact ⟨_, exclusive.complete found (separate request found) (afterErase_follows _ _ _ _)⟩
  | thread i =>
    obtain ⟨o, next, answer, shared', thread, performed, rfl⟩ := e.step_thread stepped
    exact ⟨_, exclusive.thread thread performed⟩
  | takeEffect n =>
    obtain ⟨doc, _, rfl⟩ := e.step_takeEffect stepped
    exact ⟨phases, exclusive.frame exclusive.keeps (fun _ => id) rfl rfl⟩
  | tick now =>
    obtain ⟨_, rfl⟩ := e.step_tick stepped
    exact ⟨phases, exclusive.frame exclusive.keeps (fun _ => id) rfl rfl⟩

/-- So does a step whose storage operation fails. -/
theorem stepFaulty {event : FaultyAction Url} (exclusive : Exclusive e key phases pool)
    (separate : FaultyAction.Meets (e.Separate key) pool event)
    (stepped : e.stepFaulty pool event = some pool') :
    ∃ phases', Exclusive e key phases' pool' := by
  cases event with
  | action a => exact exclusive.step separate stepped
  | failWrite n =>
    obtain ⟨-, rfl⟩ := e.step_failWrite stepped
    exact ⟨phases, exclusive.frame exclusive.keeps (fun _ => id) rfl rfl⟩
  | failRead i =>
    obtain ⟨other, next, thread, rfl⟩ := e.step_failRead stepped
    exact ⟨_, exclusive.thread_read thread none⟩

/-- **A whole run** in which no request of `engine::download` erases the key's entry. -/
theorem of_faulty {pageCache : Str → Option DataPointer} {events : List (FaultyAction Url)}
    (run : Run e.stepFaulty (FaultyAction.Meets (e.Separate key)) (e.initial pageCache) events
      pool) :
    ∃ phases, Exclusive e key phases pool :=
  run.invariant (fun pool => ∃ phases, Exclusive e key phases pool)
    ⟨_, Exclusive.initial e key pageCache⟩
    fun _ _ _ ⟨_, exclusive⟩ separate stepped => exclusive.stepFaulty separate stepped

theorem of_run {pageCache : Str → Option DataPointer} {actions : List (EngineAction Url)}
    (run : e.Runs (e.Separate key) pageCache actions pool) :
    ∃ phases, Exclusive e key phases pool :=
  of_faulty (run.relabel FaultyAction.action (fun _ _ => rfl) fun _ _ separate => separate)

end Exclusive

end EngineData

end Wookie
