/-
**A crawl can always come to rest.**

The engine has no deadlock, and no state from which a crawl of a finite site has to go on for ever:
a thread waits only for writes it issued, and a page that was fetched is copied, so that no link
leads to it again. The steps that bring the crawl to rest let one thread at a time run to its end,
every write reaching the page cache at once.

* `EngineOp.performAlone` — a thread's question while the others stand still.
* `comes_quiet` — **from every state reached, all threads can be run to their ends.**
* `Shrinks` — what such a thread does to what is left of the crawl; `shrinks_processReply`.
* `one_round` — answering one more request leaves fewer pages without a copy, or fewer requests.
* `crawl_can_rest` — **from every state reached, the crawl can come to rest**, without a further
  `engine::download` and without a failure, if links lead to finitely many URLs.
-/

import Mathlib.Data.Finset.Card
import Mathlib.Data.Set.Finite.Basic
import Wookie.Engine.Web

namespace Wookie

open Library

variable {Url : Type}

/-! ### One thread by itself -/

/-- The writes that ended are those that were issued. -/
def EngineState.Settled (s : EngineState Url) : Prop :=
  ∀ n, n ∈ s.effective ↔ n < s.writes.length

/-- **A thread's question while the others stand still**: what it writes reaches the page cache at
once. -/
def EngineOp.performAlone (o : EngineOp Url) (s : EngineState Url) :
    Option (EngineAnswer o × EngineState Url) :=
  (o.perform s).map fun result => (result.1, match o with
    | .writeDocument doc => result.2.store s.writes.length doc
    | _ => result.2)

namespace EngineData

variable (e : EngineData Url) (web : Web Url)

/-- **The steps that bring a crawl to rest**: no further call of `engine::download`, and no
failure. -/
def Finishing (pool : EnginePool Url) : FaultyAction Url → Prop
  | .action (.download _) => False
  | .action a => web.Answers pool (.action a)
  | _ => False

variable {e web} {pool : EnginePool Url} {pageCache : Str → Option DataPointer}
  {events : List (FaultyAction Url)} {s s' : EngineState Url}

theorem Finishing.answers {event : FaultyAction Url} (finishing : Finishing web pool event) :
    web.Answers pool event := by
  cases event with
  | action a =>
    cases a with
    | download url => exact finishing.elim
    | _ => exact finishing
  | failWrite n => trivial
  | failRead i => trivial

/-- A single step. -/
theorem run_one {pool' : EnginePool Url} (event : FaultyAction Url)
    (finishing : Finishing web pool event) (stepped : e.stepFaulty pool event = some pool') :
    Run e.stepFaulty (Finishing web) pool [event] pool' :=
  .cons_run finishing stepped .nil

/-- **The steps answer a thread's question as if it were by itself**, where all writes ended. -/
theorem runs_question (e : EngineData Url) (web : Web Url) (i : ℕ) (pool : EnginePool Url)
    (o : EngineOp Url) (next : EngineAnswer o → EngineProgram Url Unit) (answer : EngineAnswer o)
    (shared' : EngineState Url) (settled : pool.shared.Settled)
    (thread : pool.threads i = .op o next)
    (performed : o.performAlone pool.shared = some (answer, shared')) :
    shared'.Settled ∧ ∃ later, Run e.stepFaulty (Finishing web) pool later
      (moved pool shared' i (next answer)) := by
  obtain ⟨⟨given, s⟩, asked, same⟩ := Option.map_eq_some_iff.mp performed
  obtain ⟨rfl, rfl⟩ := Prod.mk.inj same
  have step : e.stepFaulty pool (.action (.thread i)) = some (moved pool s i (next given)) := by
    simp only [stepFaulty, EngineData.step, EnginePool.stepThread, Pool.stepThread, thread, asked,
      Option.map_some]
  have first : Run e.stepFaulty (Finishing web) pool [.action (.thread i)]
      (moved pool s i (next given)) := run_one _ trivial step
  cases o with
  | writeDocument doc =>
    cases asked
    have waiting : pool.shared.writes.length ∉ pool.shared.effective := fun ended =>
      Nat.lt_irrefl _ ((settled _).mp ended)
    refine ⟨fun n => ?_, _, first.trans
      (run_one (.action (.takeEffect pool.shared.writes.length)) trivial ?_)⟩
    · show n ∈ pool.shared.writes.length :: pool.shared.effective ↔
        n < (pool.shared.writes ++ [doc]).length
      rw [List.mem_cons, settled n, List.length_append, List.length_singleton]
      omega
    · simp only [stepFaulty, EngineData.step, if_neg waiting, List.getElem?_concat_length,
        Option.map_some]
  | wait result =>
    obtain rfl := perform_wait asked
    exact ⟨settled, _, first⟩
  | _ =>
    cases asked
    exact ⟨settled, _, first⟩

/-- **A thread can be run to its end**, if by itself it would not be blocked. -/
theorem runs_thread (pool : EnginePool Url) {i : ℕ} {thrown final : EngineState Url → Prop}
    (settled : pool.shared.Settled)
    (adheres : Adheres (.alone EngineOp.performAlone) thrown final pool.shared (pool.threads i)) :
    ∃ later pool', Run e.stepFaulty (Finishing web) pool later pool' ∧ pool'.shared.Settled ∧
      pool'.spawned = pool.spawned ∧ (∀ j, j ≠ i → pool'.threads j = pool.threads j) ∧
      ended (pool'.threads i) = true ∧ (thrown pool'.shared ∨ final pool'.shared) := by
  obtain ⟨later, pool', run, settled', spawned, others, done⟩ :=
    Pool.runs_alone (runs_question e web i) pool settled adheres
  refine ⟨later, pool', run, settled', spawned, others, ?_⟩
  rcases done with ⟨value, thread, holds⟩ | ⟨thread, holds⟩
  · exact ⟨by rw [thread]; rfl, .inr holds⟩
  · exact ⟨by rw [thread]; rfl, .inl holds⟩

/-! ### All threads -/

/-- **Only writes that were issued are waited for**, and only they end. -/
structure Placed (c : Crawl Url) : Prop where
  issued : ∀ i, ∀ n ∈ (c.duties i).issued, n < c.shared.writes.length
  effective : ∀ n ∈ c.shared.effective, n < c.shared.writes.length

namespace Placed

variable {c c' : Crawl Url} {event : FaultyAction Url}

theorem initial (pageCache : Str → Option DataPointer) :
    Placed ⟨(e.initial pageCache).shared, fun _ => .none⟩ where
  issued _ _ member := member.elim
  effective _ member := nomatch member

/-- A thread's part in a move that issues nothing. -/
theorem moved (placed : Placed c) {shared : EngineState Url} {i : ℕ} {φ : Duty Url}
    (writes : shared.writes = c.shared.writes) (effective : shared.effective = c.shared.effective)
    (issued : φ.issued ⊆ (c.duties i).issued) : Placed (c.moved shared i φ) where
  issued := by
    show ∀ j, ∀ n ∈ ((c.moved shared i φ).duties j).issued, n < shared.writes.length
    rw [writes]
    exact Crawl.everyone_moved (fun φ => ∀ n ∈ φ.issued, n < c.shared.writes.length)
      placed.issued fun n member => placed.issued i n (issued member)
  effective := by
    show ∀ n ∈ shared.effective, n < shared.writes.length
    rw [writes, effective]
    exact placed.effective

theorem step (placed : Placed c) (move : e.Move event c c') : Placed c' := by
  cases move with
  | aside _ now => exact ⟨placed.issued, placed.effective⟩
  | download _ url => exact ⟨placed.issued, placed.effective⟩
  | complete _ n i request url code headers data error oldDoc found fresh taken =>
    refine placed.moved rfl rfl ?_
    unfold entryDuty
    split
    · exact Set.empty_subset _
    · exact Set.empty_subset _
  | write _ _ i doc own fresh =>
    have more : c.shared.writes.length < (c.shared.writes ++ [doc]).length := by simp
    refine ⟨Crawl.everyone_moved
      (fun φ => ∀ n ∈ φ.issued, n < (c.shared.writes ++ [doc]).length) ?_ ?_, ?_⟩
    · exact fun j n member => (placed.issued j n member).trans more
    · rintro n (rfl | before)
      · exact more
      · exact (placed.issued i n before).trans more
    · exact fun n member => (placed.effective n member).trans more
  | store _ _ n doc found =>
    refine ⟨placed.issued, fun m member => ?_⟩
    rcases List.mem_cons.mp member with rfl | before
    · exact (List.getElem?_eq_some_iff.mp found).1
    · exact placed.effective m before
  | failWrite _ n doc found =>
    refine ⟨placed.issued, fun m member => ?_⟩
    rcases List.mem_cons.mp member with rfl | before
    · exact (List.getElem?_eq_some_iff.mp found).1
    · exact placed.effective m before
  | serve | announce | lookUp | found | submit | waited =>
    exact placed.moved rfl rfl (Set.Subset.refl _)

end Placed

/-- A state reached, and the crawl it belongs to. -/
theorem placed_of_run {meets : EnginePool Url → FaultyAction Url → Prop}
    (readable : Readable pageCache)
    (run : Run e.stepFaulty meets (e.initial pageCache) events pool) :
    ∃ c, Tracks e pool c ∧ Placed c :=
  crawl_invariant Placed readable run (.initial pageCache)
    fun _ _ _ _ _ _ placed move => placed.step move

/-- **The writes issued can all end.** -/
theorem runs_settled (e : EngineData Url) (web : Web Url)
    (placed : ∀ n ∈ pool.shared.effective, n < pool.shared.writes.length) :
    ∃ later pool', Run e.stepFaulty (Finishing web) pool later pool' ∧ pool'.shared.Settled ∧
      pool'.threads = pool.threads ∧ pool'.spawned = pool.spawned := by
  -- the first `m` writes, for `m` up to their number
  have first : ∀ m ≤ pool.shared.writes.length, ∃ later pool',
      Run e.stepFaulty (Finishing web) pool later pool' ∧
      pool'.shared.writes = pool.shared.writes ∧ (∀ n < m, n ∈ pool'.shared.effective) ∧
      (∀ n ∈ pool'.shared.effective, n < pool.shared.writes.length) ∧
      pool'.threads = pool.threads ∧ pool'.spawned = pool.spawned := by
    intro m
    induction m with
    | zero => exact fun _ => ⟨[], pool, .nil, rfl, fun n below => by omega, placed, rfl, rfl⟩
    | succ m ih =>
      intro bound
      obtain ⟨later, pool', run, writes, ended, inside, threads, spawned⟩ := ih (by omega)
      by_cases already : m ∈ pool'.shared.effective
      · refine ⟨later, pool', run, writes, fun n below => ?_, inside, threads, spawned⟩
        rcases Nat.lt_succ_iff_lt_or_eq.mp below with before | rfl
        · exact ended n before
        · exact already
      · obtain ⟨doc, found⟩ : ∃ doc, pool'.shared.writes[m]? = some doc := by
          rw [writes]
          exact ⟨_, List.getElem?_eq_getElem bound⟩
        have stepped : e.stepFaulty pool' (.action (.takeEffect m)) =
            some { pool' with shared := pool'.shared.store m doc } := by
          simp only [stepFaulty, EngineData.step, if_neg already, found, Option.map_some]
        refine ⟨_, _, run.trans (run_one (.action (.takeEffect m)) trivial stepped), writes,
          fun n below => ?_, fun n member => ?_, threads, spawned⟩
        · rcases Nat.lt_succ_iff_lt_or_eq.mp below with before | rfl
          · exact List.mem_cons_of_mem _ (ended n before)
          · exact List.mem_cons_self
        · rcases List.mem_cons.mp member with rfl | before
          · exact bound
          · exact inside n before
  obtain ⟨later, pool', run, writes, ended, inside, threads, spawned⟩ :=
    first pool.shared.writes.length (Nat.le_refl _)
  refine ⟨later, pool', run, fun n => ?_, threads, spawned⟩
  rw [writes]
  exact ⟨inside n, ended n⟩

/-- A thread by itself, some way into its duty. -/
structure Ready (e : EngineData Url) (φ : Duty Url) (s : EngineState Url) : Prop where
  settled : s.Settled
  issued : ∀ n ∈ φ.issued, n < s.writes.length
  clock : s.now.before e.generationTime = false
  readable : Readable s.pageCache

/-- A question it asks is answered. -/
theorem Ready.answered {φ : Duty Url} {o : EngineOp Url} (ready : Ready e φ s)
    (may : e.dutyState.may φ o) : (o.performAlone s).isSome = true := by
  cases o with
  | wait result =>
    have ended := (ready.settled result).mpr (ready.issued result may)
    simp only [EngineOp.performAlone, EngineOp.perform, if_pos ended, Option.map_some,
      Option.isSome_some]
  | _ => rfl

/-- **It goes on with its duty.** -/
theorem Ready.goes {φ : Duty Url} {o : EngineOp Url} {answer : EngineAnswer o}
    (ready : Ready e φ s) (performed : o.performAlone s = some (answer, s')) :
    e.dutyState.expects φ o answer ∧ Ready e (e.dutyState.after φ o answer) s' := by
  obtain ⟨⟨given, s''⟩, asked, same⟩ := Option.map_eq_some_iff.mp performed
  obtain ⟨rfl, rfl⟩ := Prod.mk.inj same
  cases o with
  | currentTime =>
    cases asked
    exact ⟨ready.clock, ready⟩
  | readData key =>
    cases asked
    refine ⟨ready.readable key, ?_⟩
    show Ready e (if e.requestsAfter (s.pageCache key) = false then φ.pay key else φ) s
    split
    · exact ⟨ready.settled, ready.issued, ready.clock, ready.readable⟩
    · exact ready
  | writeDocument doc =>
    cases asked
    have length : (s.writes ++ [doc]).length = s.writes.length + 1 := by simp
    refine ⟨trivial, fun n => ?_, fun n member => ?_, ready.clock,
      ready.readable.store (n := s.writes.length) doc⟩
    · show n ∈ s.writes.length :: s.effective ↔ n < (s.writes ++ [doc]).length
      rw [List.mem_cons, ready.settled n, length]
      omega
    · show n < (s.writes ++ [doc]).length
      rw [length]
      rcases member with rfl | before
      · exact Nat.lt_succ_self _
      · exact Nat.lt_succ_of_lt (ready.issued n before)
  | wait result =>
    obtain rfl := perform_wait asked
    exact ⟨trivial, ready.settled, ready.issued, ready.clock, ready.readable⟩
  | _ =>
    cases asked
    exact ⟨trivial, ready.settled, ready.issued, ready.clock, ready.readable⟩

/-- **What a thread with a duty asks is answered.** -/
theorem Ready.adheres {thrown final : Duty Url → Prop} {φ : Duty Url} {p : EngineProgram Url Unit}
    (ready : Ready e φ s) (adheres : Adheres e.dutyState thrown final φ p) :
    Adheres (.alone EngineOp.performAlone) (fun _ => True) (fun _ => True) s p := by
  refine adheres.transfer ready (fun _ _ _ ready may => ready.answered may)
    fun φ s o answer ready _ ⟨s', performed⟩ => ?_
  rw [Typestate.alone_after performed]
  exact ready.goes performed

/-- **All threads can be run to their ends.** -/
theorem comes_quiet {meets : EnginePool Url → FaultyAction Url → Prop}
    (readable : Readable pageCache)
    (run : Run e.stepFaulty meets (e.initial pageCache) events pool)
    (weaker : ∀ pool event, Finishing web pool event → meets pool event) :
    ∃ later pool', Run e.stepFaulty (Finishing web) pool later pool' ∧ pool'.shared.Settled ∧
      Quiet pool' := by
  obtain ⟨c, tracks, placed⟩ := placed_of_run readable run
  obtain ⟨later, middle, first, settled, threads, spawned⟩ :=
    runs_settled e web (tracks.shared ▸ placed.effective)
  -- the first `m` threads, for `m` up to their number
  have ends : ∀ m ≤ middle.spawned, ∃ more pool',
      Run e.stepFaulty (Finishing web) middle more pool' ∧ pool'.shared.Settled ∧
      pool'.spawned = middle.spawned ∧ ∀ i < m, ended (pool'.threads i) = true := by
    intro m
    induction m with
    | zero => exact fun _ => ⟨[], middle, .nil, settled, rfl, fun i below => by omega⟩
    | succ m ih =>
      intro bound
      obtain ⟨more, pool', next, settled, spawned, done⟩ := ih (by omega)
      obtain ⟨c, tracks, placed⟩ := placed_of_run readable
        (run.trans ((first.trans next).mono weaker))
      have ready : Ready e (c.duties m) pool'.shared :=
        ⟨settled, tracks.shared ▸ placed.issued m, tracks.clock, tracks.readable⟩
      obtain ⟨last, pool'', final, settled, same, others, own, -⟩ :=
        runs_thread pool' settled (ready.adheres (tracks.adhere m))
      refine ⟨more ++ last, pool'', next.trans final, settled, same.trans spawned,
        fun i below => ?_⟩
      by_cases this : i = m
      · rw [this]
        exact own
      · rw [others i this]
        exact done i (by omega)
  obtain ⟨more, pool', next, settled, same, done⟩ := ends middle.spawned (Nat.le_refl _)
  exact ⟨later ++ more, pool', first.trans next, settled,
    fun i below => done i (same ▸ below)⟩

/-! ### What is left of a crawl -/

/-- The keys without a copy of this generation. -/
def uncached (e : EngineData Url) (keys : Finset Str) (s : EngineState Url) : Finset Str :=
  keys.filter fun key => e.requestsAfter (s.pageCache key) = true

/-- Those that are not in flight either. -/
def absent (e : EngineData Url) (keys : Finset Str) (s : EngineState Url) : Finset Str :=
  (uncached e keys s).filter fun key => key ∉ s.inflight

/-- The requests that are outstanding or may still be made, while no copy is stored. -/
def load (e : EngineData Url) (keys : Finset Str) (s : EngineState Url) : ℕ :=
  (absent e keys s).card + s.outstanding.length

/-- **What a thread by itself does**: copies of this generation stay, and what is requested was
absent. -/
structure Shrinks (e : EngineData Url) (keys : Finset Str) (s s' : EngineState Url) : Prop where
  fresh : ∀ key, e.requestsAfter (s.pageCache key) = false →
    e.requestsAfter (s'.pageCache key) = false
  effective : s.effective ⊆ s'.effective
  load : load e keys s' ≤ load e keys s

variable {keys : Finset Str}

theorem mem_uncached {key : Str} : key ∈ uncached e keys s ↔
    key ∈ keys ∧ e.requestsAfter (s.pageCache key) = true := Finset.mem_filter

theorem mem_absent {key : Str} : key ∈ absent e keys s ↔
    (key ∈ keys ∧ e.requestsAfter (s.pageCache key) = true) ∧ key ∉ s.inflight := by
  rw [absent, Finset.mem_filter, mem_uncached]

theorem uncached_mono (fresh : ∀ key, e.requestsAfter (s.pageCache key) = false →
    e.requestsAfter (s'.pageCache key) = false) : uncached e keys s' ⊆ uncached e keys s := by
  intro key member
  obtain ⟨inside, stale⟩ := mem_uncached.mp member
  refine mem_uncached.mpr ⟨inside, ?_⟩
  by_contra found
  rw [fresh key (by simpa using found)] at stale
  cases stale

theorem absent_mono (fresh : ∀ key, e.requestsAfter (s.pageCache key) = false →
    e.requestsAfter (s'.pageCache key) = false)
    (inflight : ∀ key ∈ s.inflight, key ∈ s'.inflight) : absent e keys s' ⊆ absent e keys s := by
  intro key member
  obtain ⟨left, missing⟩ := Finset.mem_filter.mp member
  exact Finset.mem_filter.mpr ⟨uncached_mono fresh left, fun known => missing (inflight key known)⟩

namespace Shrinks

theorem trans {s'' : EngineState Url} (first : Shrinks e keys s s')
    (second : Shrinks e keys s' s'') : Shrinks e keys s s'' where
  fresh key stays := second.fresh key (first.fresh key stays)
  effective := List.Subset.trans first.effective second.effective
  load := second.load.trans first.load

/-- Nothing is requested. -/
theorem of_cached (fresh : ∀ key, e.requestsAfter (s.pageCache key) = false →
      e.requestsAfter (s'.pageCache key) = false)
    (effective : s.effective ⊆ s'.effective) (inflight : ∀ key ∈ s.inflight, key ∈ s'.inflight)
    (outstanding : s'.outstanding = s.outstanding) : Shrinks e keys s s' where
  fresh := fresh
  effective := effective
  load := by
    rw [EngineData.load, EngineData.load, outstanding]
    exact Nat.add_le_add_right (Finset.card_le_card (absent_mono fresh inflight)) _

/-- Only what is written to the log. -/
theorem of_log (log : List (EngineEvent Url)) : Shrinks e keys s { s with log := log } :=
  .of_cached (fun _ => id) (List.Subset.refl _) (fun _ => id) rfl

/-- A key is put in the in-flight map. -/
theorem of_insert (key : Str) (doc : Document) :
    Shrinks e keys s { s with inflight := s.inflight.insertIfNew key doc } :=
  .of_cached (fun _ => id) (List.Subset.refl _)
    (fun _ known => Std.TreeMap.mem_insertIfNew.mpr (.inr known)) rfl

/-- **What is requested was absent.** -/
theorem of_request {key : Str} (missing : key ∈ absent e keys s) {request : Request Url}
    (cache : s'.pageCache = s.pageCache) (effective : s'.effective = s.effective)
    (inflight : ∀ other ∈ s.inflight, other ∈ s'.inflight) (own : key ∈ s'.inflight)
    (outstanding : s'.outstanding = s.outstanding ++ [request]) : Shrinks e keys s s' where
  fresh := by
    rw [cache]
    exact fun _ => id
  effective := by
    rw [effective]
    exact List.Subset.refl _
  load := by
    have fewer : absent e keys s' ⊂ absent e keys s := by
      refine Finset.ssubset_iff_of_subset (absent_mono (by rw [cache]; exact fun _ => id) inflight)
        |>.mpr ⟨key, missing, fun still => ?_⟩
      exact (mem_absent.mp still).2 own
    have less := Finset.card_lt_card fewer
    rw [EngineData.load, EngineData.load, outstanding, List.length_append, List.length_singleton]
    omega

/-- **A copy of this generation is written.** -/
theorem of_write (doc : Document) (fresh : doc.ts.before e.generationTime = false) :
    Shrinks e keys s
      (EngineState.store { s with writes := s.writes ++ [doc] } s.writes.length doc) := by
  refine .of_cached (fun key stays => ?_) (List.subset_cons_self _ _) (fun _ => id) rfl
  by_cases own : key = doc.key
  · subst own
    simp only [EngineState.store, Function.update_self]
    exact requestsAfter_fresh (unpackDocument_packDocument doc) fresh
  · simp only [EngineState.store, Function.update_of_ne own]
    exact stays

end Shrinks

/-! ### What one thread does by itself -/

section Alone

variable {P : EngineState Url → Prop} {reply : Response Url} {data : Str}

/-- The functors of a list are called. -/
theorem alone_callAll (closed : ∀ s s', P s → Shrinks e keys s s' → P s')
    (functors : List ProcessFunctor) (type : DocumentType) (holds : P s) :
    Adheres (.alone EngineOp.performAlone) P P s
      (EngineData.callAll functors reply data type) := by
  refine Adheres.forEach (fun functor _ s holds => ?_) holds
  exact .alone_op rfl (closed s _ holds (.of_log _))

/-- The processors of a page. -/
theorem alone_callModified (closed : ∀ s s', P s → Shrinks e keys s s' → P s') (type : DocumentType)
    (holds : P s) :
    Adheres (.alone EngineOp.performAlone) P P s
      (if reply.code ≠ notModified then EngineData.callAll e.processors reply data type
        else .pure ()) := by
  split
  · exact alone_callAll closed _ type holds
  · exact holds

/-- **A link request submits only a URL that was absent.** -/
theorem alone_requestLink (closed : ∀ s s', P s → Shrinks e keys s s' → P s') {requestUrl : Url}
    (inside : e.swarm.toString requestUrl ∈ keys) (holds : P s) :
    Adheres (.alone EngineOp.performAlone) P P s (e.requestLink reply data requestUrl) := by
  refine .alone_op rfl (.alone_op rfl ?_)
  show Adheres _ _ _ { s with inflight := s.inflight.insertIfNew _ (Document.new s.now) }
    (if (!s.inflight.contains (e.swarm.toString requestUrl)) = true then _ else _)
  by_cases known : e.swarm.toString requestUrl ∈ s.inflight
  · rw [Std.TreeMap.contains_iff_mem.mpr known]
    exact closed s _ holds (.of_insert _ _)
  · rw [Bool.eq_false_iff.mpr (fun found => known (Std.TreeMap.contains_iff_mem.mp found))]
    refine .alone_op rfl ?_
    show Adheres _ _ _ _ (e.readFinished reply data requestUrl
      (s.pageCache (e.swarm.toString requestUrl)))
    -- what is requested below was absent before the insertion
    have absent : e.requestsAfter (s.pageCache (e.swarm.toString requestUrl)) = true →
        e.swarm.toString requestUrl ∈ absent e keys s := fun stale =>
      mem_absent.mpr ⟨⟨inside, stale⟩, known⟩
    have inserted : ∀ doc, e.swarm.toString requestUrl ∈
        s.inflight.insertIfNew (e.swarm.toString requestUrl) doc := fun _ =>
      Std.TreeMap.mem_insertIfNew_self
    have grows : ∀ key doc, ∀ other ∈ s.inflight, other ∈ s.inflight.insertIfNew key doc :=
      fun _ _ _ member => Std.TreeMap.mem_insertIfNew.mpr (.inr member)
    cases copy : s.pageCache (e.swarm.toString requestUrl) with
    | none =>
      rw [copy] at absent
      exact .alone_op rfl (closed s _ holds (.of_request (absent rfl) rfl rfl (grows _ _)
        (inserted _) rfl))
    | some file =>
      rw [copy] at absent
      rcases e.read_cases file with ⟨error, unreadable⟩ | ⟨doc, read, stale⟩ | ⟨doc, read, fresh⟩
      · rw [readFinished_error unreadable]
        exact closed s _ holds (.of_insert _ _)
      · rw [readFinished_stale read stale]
        refine .alone_op rfl (.alone_op rfl (alone_callModified closed _ ?_))
        refine closed s _ holds (.of_request (absent (requestsAfter_stale read stale)) rfl rfl ?_ ?_
          rfl)
        · exact fun other member => Std.TreeMap.mem_insertIfNew.mpr (.inr (grows _ _ other member))
        · exact Std.TreeMap.mem_insertIfNew.mpr (.inr (inserted _))
      · rw [readFinished_fresh read fresh]
        exact closed s _ holds (.of_insert _ _)

/-- **The processors are called, and the links looked up.** -/
theorem alone_processAccepted (closed : ∀ s s', P s → Shrinks e keys s s' → P s')
    (inside : ∀ target ∈ e.targets reply data, e.swarm.toString target ∈ keys) (holds : P s) :
    Adheres (.alone EngineOp.performAlone) P P s (e.processAccepted reply data) := by
  unfold EngineData.processAccepted
  split
  · rename_i accepted
    refine (alone_callModified closed _ holds).bind fun _ s holds =>
      Adheres.forEach (fun href member s holds => ?_) holds
    unfold followLink
    split
    · exact holds
    · rename_i kept
      split
      · rename_i ok
        exact alone_requestLink closed
          (inside _ ⟨href, ⟨accepted, member, by simpa using kept, ok⟩, rfl⟩) holds
      · exact holds
  · exact alone_callAll closed _ _ holds

/-- The writes have ended when they are waited for. -/
theorem alone_waits (results : List ℕ) (holds : P s)
    (ended : ∀ result ∈ results, result ∈ s.effective) :
    Adheres (.alone EngineOp.performAlone) P P s
      (Program.forEach results fun result => EngineOp.ask (.wait result)) := by
  induction results with
  | nil => exact holds
  | cons result rest ih =>
    have performed : (EngineOp.wait result).performAlone s = some ((), s) := by
      simp only [EngineOp.performAlone, EngineOp.perform, if_pos (ended result List.mem_cons_self),
        Option.map_some]
      rfl
    exact .alone_op performed (ih fun other member => ended other (List.mem_cons_of_mem _ member))

/-- What follows the writes. -/
theorem alone_rest (closed : ∀ s s', P s → Shrinks e keys s s' → P s')
    (inside : ∀ target ∈ e.targets reply data, e.swarm.toString target ∈ keys)
    {results : List ℕ} (ended : ∀ result ∈ results, result ∈ s.effective) (holds : P s) :
    Adheres (.alone EngineOp.performAlone) P P s ((e.processAccepted reply data).bind fun _ =>
      Program.forEach results fun result => EngineOp.ask (.wait result)) := by
  have both : ∀ s s', (P s ∧ ∀ result ∈ results, result ∈ s.effective) → Shrinks e keys s s' →
      P s' ∧ ∀ result ∈ results, result ∈ s'.effective := fun s s' before shrinks =>
    ⟨closed s s' before.1 shrinks, fun result member => shrinks.effective (before.2 result member)⟩
  refine ((alone_processAccepted both inside ⟨holds, ended⟩).weaken (fun _ left => left.1)
    fun _ => id).bind fun _ s left => ?_
  exact alone_waits results left.1 left.2

/-- The state after a write that reached the page cache at once. -/
abbrev written (s : EngineState Url) (doc : Document) : EngineState Url :=
  EngineState.store { s with writes := s.writes ++ [doc] } s.writes.length doc

/-- Its key has a copy of this generation. -/
theorem fresh_written {doc : Document} (fresh : doc.ts.before e.generationTime = false) :
    e.requestsAfter ((written s doc).pageCache doc.key) = false := by
  simp only [written, EngineState.store, Function.update_self]
  exact requestsAfter_fresh (unpackDocument_packDocument doc) fresh

/-- **What a page does by itself**: its key gets a copy of this generation, and what is requested
was absent. -/
structure Refreshed (e : EngineData Url) (keys : Finset Str) (key : Str) (s s' : EngineState Url) :
    Prop where
  shrinks : Shrinks e keys s s'
  fresh : e.requestsAfter (s'.pageCache key) = false

/-- **A reply by itself is processed to the end.** -/
theorem alone_processReply (clock : s.now.before e.generationTime = false)
    (inside : ∀ target ∈ e.targets reply data, e.swarm.toString target ∈ keys) :
    Adheres (.alone EngineOp.performAlone)
      (Refreshed e keys (e.swarm.toString reply.requestUrl) s)
      (Refreshed e keys (e.swarm.toString reply.requestUrl) s) s (e.processReply reply data) := by
  have closed : ∀ s₁ s₂, Refreshed e keys (e.swarm.toString reply.requestUrl) s s₁ →
      Shrinks e keys s₁ s₂ → Refreshed e keys (e.swarm.toString reply.requestUrl) s s₂ :=
    fun _ _ before shrinks =>
      ⟨before.shrinks.trans shrinks, shrinks.fresh _ before.fresh⟩
  have announced : Shrinks e keys s { s with log := .processing reply data :: s.log } := .of_log _
  refine .alone_op rfl (.alone_op rfl (.alone_op rfl ?_))
  show Adheres _ _ _ (written { s with log := .processing reply data :: s.log }
    ⟨s.now, e.swarm.toString reply.url, data⟩) ((e.storeRedirected reply data s.now).bind _)
  have first := announced.trans (.of_write ⟨s.now, e.swarm.toString reply.url, data⟩ clock)
  unfold storeRedirected
  split
  · refine .alone_op rfl (alone_rest closed inside (fun result member => ?_) ⟨?_, ?_⟩)
    · rcases List.mem_cons.mp member with rfl | last
      · exact List.mem_cons_of_mem _ List.mem_cons_self
      · rw [List.mem_singleton.mp last]
        exact List.mem_cons_self
    · exact first.trans (.of_write _ clock)
    · exact fresh_written clock
  · rename_i stayed
    refine alone_rest closed inside (fun result member => ?_) ⟨first, ?_⟩
    · rw [List.mem_singleton.mp member]
      exact List.mem_cons_self
    · rw [← not_not.mp stayed]
      exact fresh_written clock

end Alone

/-! ### Round by round -/

/-- No URL is passed to `engine::download`. -/
theorem seed_of_move {c c' : Crawl Url} {event : FaultyAction Url} (move : e.Move event c c')
    (other : ∀ url, event ≠ .action (.download url)) {url : Url}
    (seed : Web.Seed c'.shared.log url) : Web.Seed c.shared.log url := by
  obtain ⟨doc, member⟩ := seed
  refine ⟨doc, ?_⟩
  cases move with
  | download _ url => exact absurd rfl (other url)
  | complete | announce | serve | store | submit =>
    exact (List.mem_cons.mp member).resolve_left nofun
  | aside | lookUp | found | write | waited | failWrite => exact member

/-- **Links lead to no further URL** while the crawl comes to rest. -/
theorem reached_of_later {meets : EnginePool Url → FaultyAction Url → Prop} {pool' : EnginePool Url}
    {later : List (FaultyAction Url)} (readable : Readable pageCache)
    (run : Run e.stepFaulty meets (e.initial pageCache) events pool)
    (weaker : ∀ pool event, Finishing web pool event → meets pool event)
    (more : Run e.stepFaulty (Finishing web) pool later pool') {url : Url}
    (reached : web.Reached e pool'.shared.log url) : web.Reached e pool.shared.log url := by
  obtain ⟨seed, given, path⟩ := reached
  refine ⟨seed, ?_, path⟩
  induction more with
  | nil => exact given
  | @snoc labels state after label before finishing stepped ih =>
    obtain ⟨c, tracks, -⟩ := placed_of_run readable (run.trans (before.mono weaker))
    obtain ⟨c', tracks', move⟩ := tracks.step stepped
    refine ih ?_
    rw [← tracks'.shared] at given
    rw [← tracks.shared]
    refine seed_of_move move (fun url same => ?_) given
    rw [same] at finishing
    exact finishing

/-- A request is answered. -/
theorem step_complete_some {request : Request Url} {n : ℕ}
    (found : pool.shared.outstanding[n]? = some request) (url : Url) (code : ℕ)
    (headers : List (Str × Str)) (data : Str) (error : Bool) :
    e.step pool (.complete n url code headers data error) =
      some (Pool.spawn { pool with shared := e.completedState n request error pool.shared }
        (e.afterErase ⟨request.url, url, code, headers⟩ data error
          (pool.shared.inflight[e.swarm.toString request.url]?.getD
            (Document.new pool.shared.now)))) := by
  simp only [EngineData.step, found, Option.bind_some, EnginePool.stepThread, Pool.stepThread,
    enter, Pool.spawn, Function.update_self, processUrl_eq, EngineOp.perform, Option.map_some,
    Function.update_idem]
  rfl

/-- **Fewer pages are without a copy, or fewer requests are left.** -/
def Fewer (e : EngineData Url) (keys : Finset Str) (s s' : EngineState Url) : Prop :=
  (uncached e keys s').card < (uncached e keys s).card ∨
    (uncached e keys s').card ≤ (uncached e keys s).card ∧ load e keys s' < load e keys s

/-- A URL with a copy that is answered again. -/
theorem load_completed {request : Request Url} {rest : List (Request Url)}
    (waiting : s.outstanding = request :: rest)
    (cached : e.swarm.toString request.url ∉ uncached e keys s) :
    load e keys (e.completedState 0 request false s) < load e keys s := by
  have fewer : absent e keys (e.completedState 0 request false s) ⊆ absent e keys s := by
    intro key member
    obtain ⟨left, missing⟩ := Finset.mem_filter.mp member
    refine Finset.mem_filter.mpr ⟨left, fun known => missing ?_⟩
    refine Std.TreeMap.mem_erase.mpr ⟨fun same => cached ?_, known⟩
    rw [Std.LawfulEqCmp.eq_of_compare same]
    exact left
  have most := Finset.card_le_card fewer
  have outstanding : (e.completedState 0 request false s).outstanding = rest := by
    simp only [completedState, EngineState.answer, waiting, List.eraseIdx_cons_zero]
  rw [load, load, outstanding, waiting, List.length_cons]
  omega

/-- The web has answered the first request: a thread starts with its page. -/
def answeredBy (e : EngineData Url) (web : Web Url) (pool : EnginePool Url)
    (request : Request Url) : EnginePool Url :=
  Pool.spawn { pool with shared := e.completedState 0 request false pool.shared }
    (e.processReply (web.reply request.url) (web.page request.url).data)

theorem run_answeredBy {request : Request Url} {rest : List (Request Url)}
    (waiting : pool.shared.outstanding = request :: rest) :
    Run e.stepFaulty (Finishing web) pool
      [.action (.complete 0 (web.page request.url).url (web.page request.url).code
        (web.page request.url).headers (web.page request.url).data false)]
      (answeredBy e web pool request) := by
  have found : pool.shared.outstanding[0]? = some request := by
    rw [waiting]
    rfl
  refine run_one _ ⟨rfl, fun other listed => ?_⟩ ?_
  · cases found.symm.trans listed
    rfl
  · refine (step_complete_some found _ _ _ _ _).trans ?_
    rw [afterErase, if_neg Bool.false_ne_true, if_pos (web.modified request.url)]
    rfl

/-- **What the thread leaves** is fewer pages without a copy, or fewer requests. -/
theorem fewer_of_refreshed {request : Request Url} {rest : List (Request Url)}
    (waiting : s.outstanding = request :: rest)
    (refreshed : Refreshed e keys (e.swarm.toString request.url)
      (e.completedState 0 request false s) s') : Fewer e keys s s' := by
  have less : uncached e keys s' ⊆ uncached e keys s := uncached_mono refreshed.shrinks.fresh
  by_cases missing : e.swarm.toString request.url ∈ uncached e keys s
  · refine .inl (Finset.card_lt_card ((Finset.ssubset_iff_of_subset less).mpr
      ⟨_, missing, fun still => ?_⟩))
    have fresh := refreshed.fresh
    rw [(mem_uncached.mp still).2] at fresh
    cases fresh
  · exact .inr ⟨Finset.card_le_card less,
      refreshed.shrinks.load.trans_lt (load_completed waiting missing)⟩

/-- **One more request is answered.** -/
theorem one_round (readable : Readable pageCache)
    (run : Run e.stepFaulty web.Answers (e.initial pageCache) events pool)
    (settled : pool.shared.Settled) (quiet : Quiet pool)
    (inside : ∀ url, web.Reached e pool.shared.log url → e.swarm.toString url ∈ keys)
    {request : Request Url} {rest : List (Request Url)}
    (waiting : pool.shared.outstanding = request :: rest) :
    ∃ later pool', Run e.stepFaulty (Finishing web) pool later pool' ∧ pool'.shared.Settled ∧
      Quiet pool' ∧ Fewer e keys pool.shared pool'.shared := by
  obtain ⟨c, tracks, sound⟩ := Sound.of_run readable run
  have reached : web.Reached e pool.shared.log request.url := by
    rw [← tracks.shared] at waiting ⊢
    exact sound.outstanding request (waiting ▸ List.mem_cons_self)
  have first : Run e.stepFaulty (Finishing web) pool _ (answeredBy e web pool request) :=
    run_answeredBy waiting
  have started : (answeredBy e web pool request).threads pool.spawned =
      e.processReply (web.reply request.url) (web.page request.url).data := Function.update_self ..
  have alone := alone_processReply (s := e.completedState 0 request false pool.shared) tracks.clock
    fun target links => inside target (reached_link reached links)
  rw [← started] at alone
  obtain ⟨more, pool', next, done, spawned, others, own, left⟩ :=
    runs_thread (answeredBy e web pool request) settled alone
  refine ⟨_, pool', first.trans next, done, fun i below => ?_, fewer_of_refreshed waiting
    (left.elim id id)⟩
  by_cases last : i = pool.spawned
  · rw [last]
    exact own
  · rw [others i last]
    rw [spawned] at below
    have below : i < pool.spawned + 1 := below
    show ended (Function.update pool.threads pool.spawned _ i) = true
    rw [Function.update_of_ne last]
    exact quiet i (by omega)

/-- **Rounds end**: from a state without a thread at work, all requests can be answered. -/
theorem rounds_end {n m : ℕ} (readable : Readable pageCache)
    (run : Run e.stepFaulty web.Answers (e.initial pageCache) events pool)
    (settled : pool.shared.Settled) (quiet : Quiet pool)
    (inside : ∀ url, web.Reached e pool.shared.log url → e.swarm.toString url ∈ keys)
    (pages : (uncached e keys pool.shared).card = n) (requests : load e keys pool.shared = m) :
    ∃ later pool', Run e.stepFaulty (Finishing web) pool later pool' ∧ Quiet pool' ∧
      pool'.shared.outstanding = [] := by
  induction n using Nat.strong_induction_on generalizing m events pool with
  | h n fewerPages =>
  induction m using Nat.strong_induction_on generalizing events pool with
  | h m fewerRequests =>
  cases waiting : pool.shared.outstanding with
  | nil => exact ⟨[], pool, .nil, quiet, waiting⟩
  | cons request rest =>
    obtain ⟨first, middle, next, settled, quiet, fewer⟩ :=
      one_round readable run settled quiet inside waiting
    have whole := run.trans (next.mono fun _ _ => Finishing.answers)
    have inside : ∀ url, web.Reached e middle.shared.log url → e.swarm.toString url ∈ keys :=
      fun url reached => inside url
        (reached_of_later readable run (fun _ _ => Finishing.answers) next reached)
    have ends : ∃ later pool', Run e.stepFaulty (Finishing web) middle later pool' ∧ Quiet pool' ∧
        pool'.shared.outstanding = [] := by
      rw [Fewer, pages, requests] at fewer
      rcases fewer with less | ⟨atMost, less⟩
      · exact fewerPages _ less whole settled quiet inside rfl rfl
      · rcases Nat.lt_or_eq_of_le atMost with below | same
        · exact fewerPages _ below whole settled quiet inside rfl rfl
        · exact fewerRequests _ less whole settled quiet inside same rfl
    obtain ⟨more, pool', last, done⟩ := ends
    exact ⟨first ++ more, pool', next.trans last, done⟩

/-- **A crawl of a finite site can always come to rest.** From every state reached over a web, if
links lead to finitely many URLs, there are steps after which no thread is at work and no request is
outstanding; none of them is a call of `engine::download` or a failure. -/
theorem crawl_can_rest (e : EngineData Url) (web : Web Url) (pageCache : Str → Option DataPointer)
    (readable : Readable pageCache) (events : List (FaultyAction Url)) (pool : EnginePool Url)
    (run : Run e.stepFaulty web.Answers (e.initial pageCache) events pool)
    (finite : {url | web.Reached e pool.shared.log url}.Finite) :
    ∃ later pool', Run e.stepFaulty (Finishing web) pool later pool' ∧ Quiet pool' ∧
      pool'.shared.outstanding = [] := by
  obtain ⟨first, middle, next, settled, quiet⟩ :=
    comes_quiet readable run fun _ _ => Finishing.answers
  have inside : ∀ url, web.Reached e middle.shared.log url →
      e.swarm.toString url ∈ (finite.image e.swarm.toString).toFinset := by
    intro url reached
    rw [Set.Finite.mem_toFinset]
    exact Set.mem_image_of_mem _
      (reached_of_later readable run (fun _ _ => Finishing.answers) next reached)
  obtain ⟨more, pool', last, done⟩ := rounds_end readable
    (run.trans (next.mono fun _ _ => Finishing.answers)) settled quiet inside rfl rfl
  exact ⟨first ++ more, pool', next.trans last, done⟩

namespace LinkedPages

theorem runs_asked : (exec PlainUrl.crawler.stepFaulty linkedWeb.answers
    (PlainUrl.crawler.initial fun _ => none) [.action (.download TwoPages.first)]).isSome = true :=
  rfl

/-- Links lead from the first page to the second, and back. -/
theorem reached_asked :
    {url | linkedWeb.Reached PlainUrl.crawler (endState runs_asked).shared.log url} ⊆
      {TwoPages.first, TwoPages.second} := by
  rintro url ⟨seed, ⟨doc, fed⟩, path⟩
  induction path with
  | refl =>
    cases List.mem_singleton.mp fed
    exact Set.mem_insert _ _
  | tail _ links known =>
    obtain ⟨href, followed, rfl⟩ := links
    rcases known with rfl | second
    · rw [List.mem_singleton.mp followed.member]
      exact Set.mem_insert_of_mem _ rfl
    · rw [Set.mem_singleton_iff.mp second] at followed ⊢
      rw [List.mem_singleton.mp followed.member]
      exact Set.mem_insert _ _

end LinkedPages

/-- The crawl of two pages that link to one another. -/
theorem crawl_can_rest_linkedBack :
    ∃ later pool', Run PlainUrl.crawler.stepFaulty (Finishing LinkedPages.linkedWeb)
        (endState LinkedPages.runs_asked) later pool' ∧ Quiet pool' ∧
      pool'.shared.outstanding = [] :=
  crawl_can_rest PlainUrl.crawler LinkedPages.linkedWeb (fun _ => none)
    (fun _ _ held => nomatch held) [.action (.download TwoPages.first)]
    (endState LinkedPages.runs_asked)
    (Run.of_endState (fun _ _ => LinkedPages.linkedWeb.answers_of_eval) LinkedPages.runs_asked)
    ((Set.toFinite {TwoPages.first, TwoPages.second}).subset LinkedPages.reached_asked)

end EngineData

end Wookie
