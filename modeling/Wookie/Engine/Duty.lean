/-
**What a thread that handles a reply has still to do.**

`process_reply` announces its page, writes a copy of it under the URL that was asked for and the
URL it came from, calls the processors, looks every link it follows up in the in-flight map,
requests those that are new there and have no copy of this generation, and waits for its writes.

* `dutyState` — the protocol of doing this: the phase is what is left of it, and nothing else is
  written, called or submitted.
* `Looping` — what is left in the middle of the link loop; `Waiting` — what is left at the end.
* `afterErase_discharges` — **a thread ends with nothing left to do**, as long as the copies it
  reads unpack: an unreadable copy ends it with an exception.
-/

import Mathlib.Data.Set.Insert
import Wookie.Engine.Stuck

namespace Wookie

open Library

variable {Url : Type}

/-- A functor called on a page. -/
abbrev PageCall (Url : Type) := ProcessFunctor × Response Url × Str

/-- What is left to do for a page. -/
structure Duty (Url : Type) where
  /-- The page to announce. -/
  page : Option (Response Url × Str)
  /-- The keys to look up in the in-flight map. -/
  links : Set Str
  /-- The keys that are new there, and not requested yet. -/
  owes : Set Str
  /-- The copies to write: their keys and contents. -/
  copies : Set (Str × Str)
  /-- The processors to call. -/
  calls : Set (PageCall Url)
  /-- The writes to wait for. -/
  waits : Set ℕ
  /-- The writes that may be waited for. -/
  issued : Set ℕ
  /-- The URLs that may be submitted. -/
  targets : Set Url
  /-- The calls that may be made. -/
  served : Set (PageCall Url)

namespace Duty

/-- Nothing is left to do. -/
structure Done (φ : Duty Url) : Prop where
  page : φ.page = none
  links : φ.links = ∅
  owes : φ.owes = ∅
  copies : φ.copies = ∅
  calls : φ.calls = ∅
  waits : φ.waits = ∅

/-- Nothing to do. -/
def none : Duty Url := ⟨.none, ∅, ∅, ∅, ∅, ∅, ∅, ∅, ∅⟩

/-- A reply to process. -/
def reply (reply : Response Url) (data : Str) : Duty Url := { none with page := some (reply, data) }

theorem done_none : (none : Duty Url).Done := ⟨rfl, rfl, rfl, rfl, rfl, rfl⟩

/-- A page is announced, with the work it makes. -/
def announce (φ work : Duty Url) : Duty Url :=
  { φ with
    page := .none
    links := φ.links ∪ work.links
    copies := φ.copies ∪ work.copies
    calls := φ.calls ∪ work.calls
    targets := φ.targets ∪ work.targets
    served := φ.served ∪ work.served }

/-- Calls are made. -/
def called (φ : Duty Url) (calls : Set (PageCall Url)) : Duty Url :=
  { φ with calls := φ.calls \ calls }

/-- A key is looked up, and owed a request if it is new. -/
def lookUp (φ : Duty Url) (key : Str) (inserted : Bool) : Duty Url :=
  { φ with links := φ.links \ {key}, owes := φ.owes ∪ {other | inserted = true ∧ other = key} }

/-- No request is owed any more. -/
def pay (φ : Duty Url) (key : Str) : Duty Url := { φ with owes := φ.owes \ {key} }

/-- A copy is written. -/
def write (φ : Duty Url) (doc : Document) (result : ℕ) : Duty Url :=
  { φ with
    copies := φ.copies \ {(doc.key, doc.data)}
    waits := insert result φ.waits
    issued := insert result φ.issued }

/-- A write has been waited for. -/
def waited (φ : Duty Url) (result : ℕ) : Duty Url := { φ with waits := φ.waits \ {result} }

/-- The key has been looked up, and no request is owed. -/
def past (φ : Duty Url) (key : Str) : Duty Url := { φ with links := φ.links \ {key}, owes := ∅ }

theorem called_empty (φ : Duty Url) : φ.called ∅ = φ := by
  simp only [called, Set.sdiff_empty]

theorem called_called (φ : Duty Url) (first second : Set (PageCall Url)) :
    (φ.called first).called second = φ.called (first ∪ second) := by
  simp only [called, Set.sdiff_sdiff]

/-- Where no call is left, calls change nothing. -/
theorem called_again {φ : Duty Url} (idle : φ.calls = ∅) (calls : Set (PageCall Url)) :
    φ.called calls = φ := by
  simp only [called, idle, Set.empty_sdiff]
  rw [← idle]

/-- A key that was there is not owed a request. -/
theorem lookUp_known {φ : Duty Url} {key : Str} (settled : φ.owes = ∅) :
    φ.lookUp key false = φ.past key := by
  have none : φ.owes ∪ {other | false = true ∧ other = key} = ∅ := by simp [settled]
  simp only [lookUp, past, none]

/-- **A key that is requested** is not owed a request. -/
theorem pay_lookUp {φ : Duty Url} {key : Str} (inserted : Bool) (own : φ.owes ⊆ {key}) :
    (φ.lookUp key inserted).pay key = φ.past key := by
  have paid : (φ.owes ∪ {other | inserted = true ∧ other = key}) \ {key} = ∅ :=
    Set.sdiff_eq_empty.mpr (Set.union_subset own fun _ same => same.2)
  simp only [pay, past, lookUp, paid]

/-- The second insertion of a key. -/
theorem pay_lookUp_again {φ : Duty Url} {key : Str} (again : Bool) (settled : φ.owes = ∅) :
    ((φ.lookUp key true).lookUp key again).pay key = φ.past key := by
  have own : (φ.lookUp key true).owes ⊆ {key} := by
    simp [lookUp, settled]
  rw [pay_lookUp again own]
  simp only [past, lookUp, sdiff_idem]

end Duty

namespace EngineData

variable (e : EngineData Url)

/-- The URLs of the links that are followed. -/
def targets (reply : Response Url) (data : Str) : Set Url :=
  {url | ∃ href, e.Followed reply data href ∧ e.requestUrl reply href = url}

/-- The keys of the links that are followed. -/
def linkKeys (reply : Response Url) (data : Str) : Set Str :=
  {key | ∃ href, e.Followed reply data href ∧ e.swarm.toString (e.requestUrl reply href) = key}

/-- The copies of a page: the original URL of a redirect has one too. -/
def copies (reply : Response Url) (data : Str) : Set (Str × Str) :=
  {(e.swarm.toString reply.url, data), (e.swarm.toString reply.requestUrl, data)}

/-- The functors a page is for: none for a `304` that the filters accept. -/
def callees (reply : Response Url) (data : Str) : List ProcessFunctor :=
  if e.acceptedByFilters reply data then if reply.code ≠ notModified then e.processors else []
  else e.fallbackProcessors

/-- The calls of functors on a page. -/
def callsOf (functors : List ProcessFunctor) (reply : Response Url) (data : Str) :
    Set (PageCall Url) :=
  {call | ∃ functor ∈ functors, (functor, reply, data) = call}

/-- **The work a page makes.** -/
def work (reply : Response Url) (data : Str) : Duty Url where
  page := none
  links := e.linkKeys reply data
  owes := ∅
  copies := e.copies reply data
  calls := callsOf (e.callees reply data) reply data
  waits := ∅
  issued := ∅
  targets := e.targets reply data
  served := callsOf (e.callees reply data) reply data

/-- **The protocol of handling a reply.** Only copies of this generation are written, only functors
the page is for are called, only followed links are submitted, and what is read unpacks. -/
def dutyState : Typestate (@EngineAnswer Url) (Duty Url) where
  may φ
    | .processing reply data => φ.page = some (reply, data)
    | .writeDocument doc => (doc.key, doc.data) ∈ φ.copies ∧ doc.ts.before e.generationTime = false
    | .feed url _ => url ∈ φ.targets
    | .process functor reply data _ => (functor, reply, data) ∈ φ.served
    | .wait result => result ∈ φ.issued
    | .eraseInflight _ => False
    | _ => True
  expects _
    | .currentTime, now => DnetTime.before now e.generationTime = false
    | .readData _, copy => ∀ file, copy = some file → ∃ doc, unpackDocument file = .ok doc
    | _, _ => True
  after φ
    | .processing reply data, _ => φ.announce (e.work reply data)
    | .insertInflight key _, inserted => φ.lookUp key inserted
    | .readData key, copy => if e.requestsAfter copy = false then φ.pay key else φ
    | .feed url _, _ => φ.pay (e.swarm.toString url)
    | .writeDocument doc, result => φ.write doc result
    | .wait result, _ => φ.waited result
    | .process functor reply data _, _ => φ.called {(functor, reply, data)}
    | _, _ => φ

/-- From here the thread does all that is left, without an exception. -/
abbrev Discharges (φ : Duty Url) (c : EngineProgram Url Unit) : Prop :=
  Adheres e.dutyState (fun _ => False) Duty.Done φ c

variable {e} {φ : Duty Url} {reply : Response Url} {data : Str}

/-! ### `process_reply` does its duty -/

section Protocol

variable {thrown : Duty Url → Prop}

theorem callsOf_cons (functor : ProcessFunctor) (functors : List ProcessFunctor) :
    {(functor, reply, data)} ∪ callsOf functors reply data =
      callsOf (functor :: functors) reply data := by
  ext call
  simp [callsOf, eq_comm]

/-- **The functors of a list are called.** -/
theorem duty_callAll {functors : List ProcessFunctor} (type : DocumentType)
    (served : callsOf functors reply data ⊆ φ.served) :
    Adheres e.dutyState thrown (· = φ.called (callsOf functors reply data)) φ
      (EngineData.callAll functors reply data type) := by
  induction functors generalizing φ with
  | nil =>
    have none : callsOf [] reply data = ∅ := by simp [callsOf]
    rw [none, Duty.called_empty]
    exact rfl
  | cons functor rest ih =>
    have own : (functor, reply, data) ∈ callsOf (functor :: rest) reply data :=
      ⟨functor, List.mem_cons_self, rfl⟩
    rw [← callsOf_cons, ← Duty.called_called]
    refine ⟨served own, fun _ _ => ih ?_⟩
    exact (callsOf_cons functor rest ▸ Set.subset_union_right).trans served

/-- The processors of a page that the filters accept. -/
theorem duty_callModified (type : DocumentType) (accepted : e.acceptedByFilters reply data = true)
    (served : callsOf (e.callees reply data) reply data ⊆ φ.served) :
    Adheres e.dutyState thrown (· = φ.called (callsOf (e.callees reply data) reply data)) φ
      (if reply.code ≠ notModified then EngineData.callAll e.processors reply data type
        else .pure ()) := by
  split
  · rename_i modified
    rw [callees, if_pos accepted, if_pos modified] at served ⊢
    exact duty_callAll type served
  · rename_i unmodified
    have none : callsOf [] reply data = ∅ := by simp [callsOf]
    rw [callees, if_pos accepted, if_neg unmodified, none, Duty.called_empty]
    exact rfl

/-- **A link request looks its key up**, submits no other URL, and leaves no request owed. -/
theorem duty_requestLink {requestUrl : Url} (accepted : e.acceptedByFilters reply data = true)
    (served : callsOf (e.callees reply data) reply data ⊆ φ.served) (idle : φ.calls = ∅)
    (target : requestUrl ∈ φ.targets) (settled : φ.owes = ∅) :
    Adheres e.dutyState thrown (· = φ.past (e.swarm.toString requestUrl)) φ
      (e.requestLink reply data requestUrl) := by
  refine ⟨trivial, fun now _ => ⟨trivial, fun inserted _ => ?_⟩⟩
  show Adheres _ _ _ (φ.lookUp (e.swarm.toString requestUrl) inserted) _
  cases inserted with
  | false => exact Duty.lookUp_known settled
  | true =>
    refine ⟨trivial, fun copy unpacks => ?_⟩
    show Adheres _ _ _ (if e.requestsAfter copy = false then _ else _)
      (e.readFinished reply data requestUrl copy)
    have own : φ.owes ⊆ {e.swarm.toString requestUrl} := by simp [settled]
    cases copy with
    | none => exact ⟨target, fun _ _ => Duty.pay_lookUp true own⟩
    | some file =>
      obtain ⟨doc, read⟩ := unpacks file rfl
      cases age : doc.ts.before e.generationTime with
      | true =>
        rw [readFinished_stale read age, requestsAfter_stale read age, if_neg (by decide)]
        refine ⟨trivial, fun again _ => ⟨target, fun _ _ => ?_⟩⟩
        -- the second insertion is of the same key, and no call is left to make
        show Adheres _ _ _ (((φ.lookUp _ true).lookUp _ again).pay _) _
        rw [Duty.pay_lookUp_again again settled]
        have left : callsOf (e.callees reply data) reply data ⊆
            (φ.past (e.swarm.toString requestUrl)).served := served
        refine (duty_callModified _ accepted left).mono fun phase same => ?_
        have none : (φ.past (e.swarm.toString requestUrl)).calls = ∅ := idle
        exact same.trans (Duty.called_again none _)
      | false =>
        rw [readFinished_fresh read age, if_pos (requestsAfter_fresh read age)]
        exact Duty.pay_lookUp true own

/-- In the link loop: the links among `rest` are left, and the writes to wait for. -/
structure Looping (e : EngineData Url) (reply : Response Url) (data : Str) (waits : Set ℕ)
    (rest : List Str) (φ : Duty Url) : Prop where
  page : φ.page = none
  owes : φ.owes = ∅
  copies : φ.copies = ∅
  calls : φ.calls = ∅
  waits : φ.waits = waits
  issued : φ.waits ⊆ φ.issued
  served : callsOf (e.callees reply data) reply data ⊆ φ.served
  targets : e.targets reply data ⊆ φ.targets
  links : ∀ key ∈ φ.links, ∃ href ∈ rest, e.Followed reply data href ∧
    e.swarm.toString (e.requestUrl reply href) = key
  rest : ∀ href ∈ rest, href ∈ e.links reply data

/-- **A round of the link loop** looks its link up, if it is one to follow. -/
theorem Looping.followLink {waits : Set ℕ} {href : Str} {rest : List Str}
    (accepted : e.acceptedByFilters reply data = true)
    (looping : Looping e reply data waits (href :: rest) φ) :
    Adheres e.dutyState thrown (Looping e reply data waits rest) φ
      (e.followLink reply data href) := by
  have inside : ∀ other ∈ rest, other ∈ e.links reply data := fun other member =>
    looping.rest other (List.mem_cons_of_mem _ member)
  have passed : ¬ e.Followed reply data href → Looping e reply data waits rest φ := by
    intro ignored
    refine { looping with rest := inside, links := fun key left => ?_ }
    obtain ⟨other, member, followed, own⟩ := looping.links key left
    rcases List.mem_cons.mp member with rfl | later
    · exact absurd followed ignored
    · exact ⟨other, later, followed, own⟩
  unfold EngineData.followLink
  split
  · rename_i skipped
    exact passed fun followed => by rw [followed.kept] at skipped; cases skipped
  · rename_i kept
    split
    · rename_i ok
      have followed : e.Followed reply data href :=
        ⟨accepted, looping.rest href List.mem_cons_self, by simpa using kept, ok⟩
      have target := looping.targets ⟨href, followed, rfl⟩
      refine (duty_requestLink accepted looping.served looping.calls target looping.owes).mono
        fun phase same => ?_
      subst same
      refine { looping with rest := inside, owes := rfl, links := fun key left => ?_ }
      obtain ⟨other, member, followed, own⟩ := looping.links key left.1
      rcases List.mem_cons.mp member with rfl | later
      · exact absurd own.symm left.2
      · exact ⟨other, later, followed, own⟩
    · rename_i rejected
      exact passed fun followed => rejected followed.ok

/-- **The processors are called, and the link loop leaves no link.** -/
theorem duty_processAccepted {waits : Set ℕ}
    (looping : Looping e reply data waits (e.links reply data)
      (φ.called (callsOf (e.callees reply data) reply data))) :
    Adheres e.dutyState thrown (Looping e reply data waits []) φ
      (e.processAccepted reply data) := by
  have served : callsOf (e.callees reply data) reply data ⊆ φ.served := looping.served
  unfold EngineData.processAccepted
  split
  · rename_i accepted
    refine (duty_callModified _ accepted served).bind fun _ phase same => ?_
    subst same
    exact Adheres.forEach_left (fun _ _ _ left => left.followLink accepted) looping
  · rename_i rejected
    have callees : e.callees reply data = e.fallbackProcessors := if_neg rejected
    rw [callees] at served looping
    refine (duty_callAll _ served).mono fun phase same => ?_
    subst same
    refine { looping with
      served := callees ▸ served
      rest := fun _ member => (List.not_mem_nil member).elim
      links := ?_ }
    intro key left
    obtain ⟨_, _, followed, _⟩ := looping.links key left
    exact absurd followed.accepted rejected

/-- Nothing is left but to wait for some of `results`. -/
structure Waiting (results : List ℕ) (φ : Duty Url) : Prop where
  page : φ.page = none
  links : φ.links = ∅
  owes : φ.owes = ∅
  copies : φ.copies = ∅
  calls : φ.calls = ∅
  waits : ∀ result ∈ φ.waits, result ∈ results
  issued : ∀ result ∈ results, result ∈ φ.issued

theorem Looping.waiting {results : List ℕ}
    (looping : Looping e reply data {result | result ∈ results} [] φ) : Waiting results φ where
  page := looping.page
  links := by
    refine Set.eq_empty_iff_forall_notMem.mpr fun key left => ?_
    obtain ⟨_, member, _⟩ := looping.links key left
    cases member
  owes := looping.owes
  copies := looping.copies
  calls := looping.calls
  waits result left := by
    rw [looping.waits] at left
    exact left
  issued result member := by
    refine looping.issued ?_
    rw [looping.waits]
    exact member

/-- **The waits at the end** leave nothing. -/
theorem Waiting.forEach {results : List ℕ} (waiting : Waiting results φ) :
    Adheres e.dutyState thrown Duty.Done φ
      (Program.forEach results fun result => EngineOp.ask (.wait result)) := by
  refine (Adheres.forEach_left (fun result rest φ waiting => ?_) waiting).mono fun φ waiting => ?_
  · refine ⟨waiting.issued result List.mem_cons_self, fun _ _ => ⟨waiting.page, waiting.links,
      waiting.owes, waiting.copies, waiting.calls, fun other left => ?_, fun other member => ?_⟩⟩
    · exact (List.mem_cons.mp (waiting.waits other left.1)).resolve_left left.2
    · exact waiting.issued other (List.mem_cons_of_mem _ member)
  · refine ⟨waiting.page, waiting.links, waiting.owes, waiting.copies, waiting.calls, ?_⟩
    refine Set.eq_empty_iff_forall_notMem.mpr fun result left => ?_
    cases waiting.waits result left

/-- What follows the writes. -/
theorem Looping.rest_discharges {results : List ℕ}
    (looping : Looping e reply data {result | result ∈ results} (e.links reply data)
      (φ.called (callsOf (e.callees reply data) reply data))) :
    e.Discharges φ ((e.processAccepted reply data).bind fun _ =>
      Program.forEach results fun result => EngineOp.ask (.wait result)) :=
  (duty_processAccepted looping).bind fun _ _ left => left.waiting.forEach

/-- What is left between the writes and the calls: the page is announced, its copies are
written. -/
theorem Looping.start {copies : Set (Str × Str)} {waits issued : Set ℕ} (written : copies = ∅)
    (same : waits = issued) :
    Looping e reply data issued (e.links reply data)
      (Duty.called { Duty.announce (.reply reply data) (e.work reply data) with
        copies := copies
        waits := waits
        issued := waits } (callsOf (e.callees reply data) reply data)) where
  page := rfl
  owes := rfl
  copies := written
  calls := Set.sdiff_eq_empty.mpr (Set.union_subset (Set.empty_subset _) subset_rfl)
  waits := same
  issued := Set.Subset.rfl
  served := Set.subset_union_right
  targets := Set.subset_union_right
  links key left := by
    obtain ⟨href, followed, own⟩ := left.resolve_left (Set.notMem_empty key)
    exact ⟨href, followed.member, followed, own⟩
  rest _ member := member

/-- Both copies are written. -/
theorem copies_redirected :
    ((∅ ∪ e.copies reply data) \ {(e.swarm.toString reply.url, data)})
      \ {(e.swarm.toString reply.requestUrl, data)} = (∅ : Set (Str × Str)) := by
  rw [Set.empty_union, Set.sdiff_sdiff]
  exact Set.sdiff_eq_empty.mpr fun copy member => member

/-- Without a redirect the two copies are one. -/
theorem copies_stayed (stayed : e.swarm.toString reply.url = e.swarm.toString reply.requestUrl) :
    (∅ ∪ e.copies reply data) \ {(e.swarm.toString reply.url, data)} = (∅ : Set (Str × Str)) := by
  rw [Set.empty_union, EngineData.copies, ← stayed, Set.pair_eq_singleton]
  exact sdiff_self

theorem issued_one (first : ℕ) : insert first ∅ = {result | result ∈ [first]} := by
  ext result
  simp

theorem issued_pair (first second : ℕ) :
    insert second (insert first ∅) = {result | result ∈ [first, second]} := by
  ext result
  simp [or_comm]

/-- **`process_reply` does its duty.** -/
theorem processReply_discharges :
    e.Discharges (Duty.reply reply data) (e.processReply reply data) := by
  refine ⟨rfl, fun _ _ => ⟨trivial, fun ts clock => ?_⟩⟩
  refine ⟨⟨Or.inr (Set.mem_insert ..), clock⟩, fun first _ => ?_⟩
  show e.Discharges _ ((e.storeRedirected reply data ts).bind _)
  unfold storeRedirected
  split
  · rename_i redirected
    have other : (e.swarm.toString reply.requestUrl, data) ≠ (e.swarm.toString reply.url, data) :=
      fun same => redirected (congrArg Prod.fst same).symm
    refine ⟨⟨⟨Or.inr (Set.mem_insert_of_mem _ rfl), other⟩, clock⟩, fun second _ => ?_⟩
    exact (Looping.start copies_redirected (issued_pair first second)).rest_discharges
  · rename_i stayed
    exact (Looping.start (copies_stayed (not_not.mp stayed)) (issued_one first)).rest_discharges

/-- What a completion leaves to do: a reply without error is processed. -/
def entryDuty (reply : Response Url) (data : Str) (error : Bool) (oldDoc : Document) : Duty Url :=
  if error then .none
  else .reply reply (if reply.code ≠ notModified then data else oldDoc.data)

/-- **A completion does its duty.** -/
theorem afterErase_discharges (error : Bool) (oldDoc : Document) :
    e.Discharges (entryDuty reply data error oldDoc) (e.afterErase reply data error oldDoc) := by
  unfold afterErase entryDuty
  split
  · exact Duty.done_none
  · split
    · exact processReply_discharges
    · exact processReply_discharges

end Protocol

end EngineData

end Wookie
