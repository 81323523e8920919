/-
**What the page cache holds.**

`process_reply` writes a copy of its page under the URL it came from, and under the URL that was
asked for when a redirect led elsewhere; it ends once both writes have ended.

* `Announced` — a page was announced that is to be copied under a key.
* `Copied` — every copy in the page cache is an old one or one of an announced page; in every run.
* `Stored` — every copy of an announced page is to be written by a thread, waited for by one, or in
  the page cache; in every run without a write that fails.
* `page_cache_follows` — **once no thread is at work the page cache holds a copy of this generation
  under exactly the keys of announced pages**, and under every other key what it held.
-/

import Wookie.Engine.Crawl

namespace Wookie

open Library

variable {Url : Type}

namespace EngineData

variable (e : EngineData Url)

/-- **A page with this copy was announced.** -/
def Announced (log : List (EngineEvent Url)) (copy : Str × Str) : Prop :=
  ∃ reply data, .processing reply data ∈ log ∧ copy ∈ e.copies reply data

/-- **Where copies come from.** -/
structure Copied (pageCache : Str → Option DataPointer) (c : Crawl Url) : Prop where
  duties : ∀ i, ∀ copy ∈ (c.duties i).copies, e.Announced c.shared.log copy
  writes : ∀ doc ∈ c.shared.writes, e.Announced c.shared.log (doc.key, doc.data) ∧
    doc.ts.before e.generationTime = false
  cached : ∀ key, c.shared.pageCache key = pageCache key ∨
    ∃ doc ∈ c.shared.writes, doc.key = key ∧ c.shared.pageCache key = some (packDocument doc)

/-- A write to wait for, or one that ended. -/
def Issued (c : Crawl Url) (copy : Str × Str) : Prop :=
  ∃ n doc, c.shared.writes[n]? = some doc ∧ (doc.key, doc.data) = copy ∧
    (n ∈ c.shared.effective ∨ ∃ i, n ∈ (c.duties i).waits)

/-- **Where copies go.** -/
structure Stored (c : Crawl Url) : Prop where
  announced : ∀ copy, e.Announced c.shared.log copy →
    (∃ i, copy ∈ (c.duties i).copies) ∨ Issued c copy
  effective : ∀ n ∈ c.shared.effective, ∃ doc, c.shared.writes[n]? = some doc ∧
    ∃ held ∈ c.shared.writes, held.key = doc.key ∧
      c.shared.pageCache doc.key = some (packDocument held)

variable {e} {pageCache : Str → Option DataPointer} {c c' : Crawl Url}
  {event : FaultyAction Url} {log log' : List (EngineEvent Url)} {copy : Str × Str}

theorem Announced.mono (announced : e.Announced log copy) (grows : log ⊆ log') :
    e.Announced log' copy := by
  obtain ⟨reply, data, member, own⟩ := announced
  exact ⟨reply, data, grows member, own⟩

/-- A page announced after an event that announces none. -/
theorem Announced.of_cons {latest : EngineEvent Url} (announced : e.Announced (latest :: log) copy)
    (other : ∀ reply data, latest ≠ .processing reply data) : e.Announced log copy := by
  obtain ⟨reply, data, member, own⟩ := announced
  exact ⟨reply, data, (List.mem_cons.mp member).resolve_left (other reply data).symm, own⟩

/-! ### Where copies come from -/

namespace Copied

theorem initial (pageCache : Str → Option DataPointer) :
    Copied e pageCache ⟨(e.initial pageCache).shared, fun _ => .none⟩ where
  duties _ _ member := member.elim
  writes _ member := nomatch member
  cached _ := .inl rfl

/-- No copy is written or stored. -/
theorem frame (copied : Copied e pageCache c) (writes : c'.shared.writes = c.shared.writes)
    (cache : c'.shared.pageCache = c.shared.pageCache) (grows : c.shared.log ⊆ c'.shared.log)
    (duties : ∀ i, ∀ copy ∈ (c'.duties i).copies, e.Announced c'.shared.log copy) :
    Copied e pageCache c' where
  duties := duties
  writes doc member := by
    rw [writes] at member
    exact ⟨(copied.writes doc member).1.mono grows, (copied.writes doc member).2⟩
  cached key := by
    rw [writes, cache]
    exact copied.cached key

/-- The copies to write are those of announced pages, those the thread is left with too. -/
theorem kept (copied : Copied e pageCache c) {shared : EngineState Url} {i : ℕ} {φ : Duty Url}
    (grows : c.shared.log ⊆ shared.log) (own : φ.copies ⊆ (c.duties i).copies) :
    ∀ j, ∀ copy ∈ ((c.moved shared i φ).duties j).copies, e.Announced shared.log copy :=
  Crawl.everyone_moved (fun φ => ∀ copy ∈ φ.copies, e.Announced shared.log copy)
    (fun j copy member => (copied.duties j copy member).mono grows)
    fun copy member => (copied.duties i copy (own member)).mono grows

theorem step (copied : Copied e pageCache c) (move : e.Move event c c') :
    Copied e pageCache c' := by
  have grows : ∀ latest : EngineEvent Url, c.shared.log ⊆ latest :: c.shared.log :=
    fun latest => List.subset_cons_self latest _
  cases move with
  | aside _ now => exact ⟨copied.duties, copied.writes, copied.cached⟩
  | serve _ _ i functor reply data type own =>
    exact copied.frame rfl rfl (grows _) (copied.kept (grows _) subset_rfl)
  | download _ url =>
    exact copied.frame rfl rfl (grows _) fun i copy member =>
      (copied.duties i copy member).mono (grows _)
  | complete _ n i request url code headers data error oldDoc found fresh taken =>
    refine copied.frame rfl rfl (grows _) (copied.kept (grows _) ?_)
    intro copy member
    unfold entryDuty at member
    split at member
    · exact member.elim
    · exact member.elim
  | announce _ _ i reply data page =>
    refine copied.frame rfl rfl (grows _)
      (Crawl.everyone_moved (fun φ => ∀ copy ∈ φ.copies, e.Announced _ copy) ?_ ?_)
    · exact fun j copy member => (copied.duties j copy member).mono (grows _)
    · rintro copy (before | own)
      · exact (copied.duties i copy before).mono (grows _)
      · exact ⟨reply, data, List.mem_cons_self, own⟩
  | lookUp _ _ i key doc =>
    exact copied.frame rfl rfl (List.Subset.refl _) (copied.kept (List.Subset.refl _) subset_rfl)
  | found _ _ i key ends =>
    exact copied.frame rfl rfl (List.Subset.refl _) (copied.kept (List.Subset.refl _) subset_rfl)
  | submit _ _ i url doc target =>
    exact copied.frame rfl rfl (grows _) (copied.kept (grows _) subset_rfl)
  | write _ _ i doc own fresh =>
    refine ⟨copied.kept (List.Subset.refl _) Set.sdiff_subset, fun written member => ?_,
      fun key => ?_⟩
    · rcases List.mem_append.mp member with before | new
      · exact copied.writes written before
      · rw [List.mem_singleton.mp new]
        exact ⟨copied.duties i _ own, fresh⟩
    · rcases copied.cached key with same | ⟨held, member, own, cached⟩
      · exact .inl same
      · exact .inr ⟨held, List.mem_append_left _ member, own, cached⟩
  | waited _ _ i result ended =>
    exact copied.frame rfl rfl (List.Subset.refl _) (copied.kept (List.Subset.refl _) subset_rfl)
  | store _ _ n doc found =>
    refine ⟨fun i copy member => (copied.duties i copy member).mono (grows _),
      fun written member => ?_, fun key => ?_⟩
    · exact ⟨(copied.writes written member).1.mono (grows _), (copied.writes written member).2⟩
    · by_cases own : doc.key = key
      · subst own
        exact .inr ⟨doc, List.mem_of_getElem? found, rfl, Function.update_self ..⟩
      · have other : (c.shared.store n doc).pageCache key = c.shared.pageCache key :=
          Function.update_of_ne (Ne.symm own) ..
        show (c.shared.store n doc).pageCache key = _ ∨ ∃ doc' ∈ c.shared.writes, doc'.key = key ∧
          (c.shared.store n doc).pageCache key = _
        rw [other]
        exact copied.cached key
  | failWrite _ n => exact ⟨copied.duties, copied.writes, copied.cached⟩

end Copied

/-! ### Where copies go -/

/-- **An issued write stays issued** where writes are only added, and a thread stops waiting only
for a write that ended. -/
theorem Issued.mono (issued : Issued c copy)
    (writes : ∀ (n : ℕ) (doc : Document), c.shared.writes[n]? = some doc →
      c'.shared.writes[n]? = some doc)
    (effective : c.shared.effective ⊆ c'.shared.effective)
    (waits : ∀ n, (∃ i, n ∈ (c.duties i).waits) →
      n ∈ c'.shared.effective ∨ ∃ i, n ∈ (c'.duties i).waits) : Issued c' copy := by
  obtain ⟨n, doc, found, own, ended | waiting⟩ := issued
  · exact ⟨n, doc, writes n doc found, own, .inl (effective ended)⟩
  · exact ⟨n, doc, writes n doc found, own, waits n waiting⟩

namespace Stored

theorem initial (pageCache : Str → Option DataPointer) :
    Stored e ⟨(e.initial pageCache).shared, fun _ => .none⟩ where
  announced _ := fun ⟨_, _, member, _⟩ => nomatch member
  effective _ member := nomatch member

/-- No copy is written, waited for, or stored. -/
theorem frame (stored : Stored e c) (writes : c'.shared.writes = c.shared.writes)
    (effective : c'.shared.effective = c.shared.effective)
    (cache : c'.shared.pageCache = c.shared.pageCache)
    (log : ∀ copy, e.Announced c'.shared.log copy → e.Announced c.shared.log copy)
    (copies : ∀ copy, (∃ i, copy ∈ (c.duties i).copies) → ∃ i, copy ∈ (c'.duties i).copies)
    (waits : ∀ n, (∃ i, n ∈ (c.duties i).waits) → ∃ i, n ∈ (c'.duties i).waits) :
    Stored e c' where
  announced copy announced := by
    rcases stored.announced copy (log copy announced) with written | issued
    · exact .inl (copies copy written)
    · refine .inr (issued.mono (fun n doc found => ?_) ?_ fun n waiting =>
        .inr (waits n waiting))
      · rwa [writes]
      · rw [effective]
        exact List.Subset.refl _
  effective n member := by
    rw [effective] at member
    rw [writes, cache]
    exact stored.effective n member

/-- A thread's part in a move that leaves its copies and its waits alone. -/
theorem moved (stored : Stored e c) {shared : EngineState Url} {i : ℕ} {φ : Duty Url}
    (writes : shared.writes = c.shared.writes) (effective : shared.effective = c.shared.effective)
    (cache : shared.pageCache = c.shared.pageCache)
    (log : ∀ copy, e.Announced shared.log copy → e.Announced c.shared.log copy)
    (copies : (c.duties i).copies ⊆ φ.copies) (waits : (c.duties i).waits ⊆ φ.waits) :
    Stored e (c.moved shared i φ) :=
  stored.frame writes effective cache log
    (fun copy => fun written => Crawl.someone_moved (copy ∈ ·.copies) written (copies ·))
    fun n => fun waiting => Crawl.someone_moved (n ∈ ·.waits) waiting (waits ·)

/-- **A page is announced**: its copies are the thread's to write. -/
theorem announce (stored : Stored e c) (i : ℕ) (reply : Response Url) (data : Str) :
    Stored e (c.moved { c.shared with log := .processing reply data :: c.shared.log } i
      ((c.duties i).announce (e.work reply data))) where
  announced copy := by
    rintro ⟨other, content, member, own⟩
    rcases List.mem_cons.mp member with new | before
    · cases new
      exact .inl (Crawl.someone_self (copy ∈ ·.copies) (Set.mem_union_right _ own))
    · rcases stored.announced copy ⟨other, content, before, own⟩ with written | issued
      · exact .inl (Crawl.someone_moved (copy ∈ ·.copies) written (Set.mem_union_left _ ·))
      · refine .inr (issued.mono (fun _ _ found => found) (List.Subset.refl _) fun n waiting => ?_)
        exact .inr (Crawl.someone_moved (n ∈ ·.waits) waiting id)
  effective := stored.effective

/-- **A copy is written**: the thread waits for it. -/
theorem write (stored : Stored e c) (i : ℕ) (doc : Document) :
    Stored e (c.moved { c.shared with writes := c.shared.writes ++ [doc] } i
      ((c.duties i).write doc c.shared.writes.length)) where
  announced copy announced := by
    have earlier : ∀ n held, c.shared.writes[n]? = some held →
        (c.shared.writes ++ [doc])[n]? = some held := fun n held found => by
      obtain ⟨bound, _⟩ := List.getElem?_eq_some_iff.mp found
      rwa [List.getElem?_append_left bound]
    by_cases own : copy = (doc.key, doc.data)
    · refine .inr ⟨c.shared.writes.length, doc, List.getElem?_concat_length .., own.symm, .inr ?_⟩
      exact Crawl.someone_self (c.shared.writes.length ∈ ·.waits) (Set.mem_insert _ _)
    · rcases stored.announced copy announced with written | issued
      · refine .inl (Crawl.someone_moved (copy ∈ ·.copies) written fun left => ?_)
        exact ⟨left, own⟩
      · refine .inr (issued.mono earlier (List.Subset.refl _) fun n waiting => .inr ?_)
        exact Crawl.someone_moved (n ∈ ·.waits) waiting (Set.mem_insert_of_mem _ ·)
  effective n member := by
    obtain ⟨written, found, held, inside, own, cached⟩ := stored.effective n member
    obtain ⟨bound, _⟩ := List.getElem?_eq_some_iff.mp found
    refine ⟨written, ?_, held, List.mem_append_left _ inside, own, cached⟩
    exact (List.getElem?_append_left bound).trans found

/-- **A thread stops waiting** for a write that ended. -/
theorem waited (stored : Stored e c) {i result : ℕ} (ended : result ∈ c.shared.effective) :
    Stored e (c.moved c.shared i ((c.duties i).waited result)) where
  announced copy announced := by
    rcases stored.announced copy announced with written | issued
    · exact .inl (Crawl.someone_moved (copy ∈ ·.copies) written id)
    · refine .inr (issued.mono (fun _ _ found => found) (List.Subset.refl _) fun n waiting => ?_)
      by_cases same : n = result
      · exact .inl (same ▸ ended)
      · exact .inr (Crawl.someone_moved (n ∈ ·.waits) waiting fun left => ⟨left, same⟩)
  effective := stored.effective

/-- **A write reaches the page cache.** -/
theorem store (stored : Stored e c) {n : ℕ} {doc : Document}
    (found : c.shared.writes[n]? = some doc) :
    Stored e { c with shared := c.shared.store n doc } where
  announced copy announced := by
    have before := announced.of_cons fun _ _ same => nomatch same
    rcases stored.announced copy before with written | issued
    · exact .inl written
    · exact .inr (issued.mono (fun _ _ found => found) (List.subset_cons_self n _)
        fun _ waiting => .inr waiting)
  effective m member := by
    -- what was in the page cache is there still, or has been written over by this copy
    have kept : ∀ held ∈ c.shared.writes, c.shared.pageCache held.key = some (packDocument held) →
        ∃ other ∈ c.shared.writes, other.key = held.key ∧
          (c.shared.store n doc).pageCache held.key = some (packDocument other) := by
      intro held inside cached
      by_cases same : held.key = doc.key
      · refine ⟨doc, List.mem_of_getElem? found, same.symm, ?_⟩
        rw [same]
        exact Function.update_self ..
      · exact ⟨held, inside, rfl, (Function.update_of_ne same ..).trans cached⟩
    rcases List.mem_cons.mp member with rfl | before
    · exact ⟨doc, found, doc, List.mem_of_getElem? found, rfl, Function.update_self ..⟩
    · obtain ⟨written, place, held, inside, own, cached⟩ := stored.effective m before
      rw [← own] at cached
      obtain ⟨other, member', same, stays⟩ := kept held inside cached
      refine ⟨written, place, other, member', same.trans own, ?_⟩
      rw [← own]
      exact stays

theorem step (stored : Stored e c) (succeeds : ∀ n, event ≠ .failWrite n)
    (move : e.Move event c c') : Stored e c' := by
  cases move with
  | aside _ now => exact ⟨stored.announced, stored.effective⟩
  | serve _ _ i functor reply data type own =>
    exact stored.moved rfl rfl rfl
      (fun _ announced => announced.of_cons fun _ _ same => nomatch same)
      (Set.Subset.refl _) (Set.Subset.refl _)
  | download _ url =>
    exact stored.frame rfl rfl rfl
      (fun _ announced => announced.of_cons fun _ _ same => nomatch same) (fun _ => id) fun _ => id
  | complete _ n i request url code headers data error oldDoc found fresh taken =>
    refine stored.moved rfl rfl rfl
      (fun _ announced => announced.of_cons fun _ _ same => nomatch same) ?_ ?_
    · rw [fresh]
      exact Set.empty_subset _
    · rw [fresh]
      exact Set.empty_subset _
  | announce _ _ i reply data page => exact stored.announce i reply data
  | lookUp _ _ i key doc =>
    exact stored.moved rfl rfl rfl (fun _ => id) (Set.Subset.refl _) (Set.Subset.refl _)
  | found _ _ i key ends =>
    exact stored.moved rfl rfl rfl (fun _ => id) (Set.Subset.refl _) (Set.Subset.refl _)
  | submit _ _ i url doc target =>
    exact stored.moved rfl rfl rfl
      (fun _ announced => announced.of_cons fun _ _ same => nomatch same)
      (Set.Subset.refl _) (Set.Subset.refl _)
  | write _ _ i doc own fresh => exact stored.write i doc
  | waited _ _ i result ended => exact stored.waited ended
  | store _ _ n doc found => exact stored.store found
  | failWrite _ n => exact absurd rfl (succeeds n)

end Stored

/-! ### The page cache of a crawl that came to rest -/

/-- **Every run without a write that fails** copies what it announces. -/
theorem Stored.of_run {events : List (FaultyAction Url)} {pool : EnginePool Url}
    (readable : Readable pageCache)
    (run : Run e.stepFaulty (fun _ event => ∀ n, event ≠ .failWrite n) (e.initial pageCache) events
      pool) : ∃ c, Tracks e pool c ∧ Copied e pageCache c ∧ Stored e c :=
  crawl_invariant (fun c => Copied e pageCache c ∧ Stored e c) readable run
    ⟨.initial pageCache, .initial pageCache⟩ fun _ _ _ _ _ succeeds ⟨copied, stored⟩ move =>
      ⟨copied.step move, stored.step succeeds move⟩

/-- **A key a page was announced with** holds a copy of this generation, where nothing is left to
do. -/
theorem Stored.cached {key data : Str} (stored : Stored e c) (copied : Copied e pageCache c)
    (done : ∀ i, (c.duties i).Done) (announced : e.Announced c.shared.log (key, data)) :
    ∃ doc, c.shared.pageCache key = some (packDocument doc) ∧
      doc.ts.before e.generationTime = false ∧ doc.key = key ∧
      e.Announced c.shared.log (key, doc.data) := by
  rcases stored.announced _ announced with ⟨i, left⟩ | ⟨n, doc, found, own, ended⟩
  · rw [(done i).copies] at left
    exact left.elim
  · have ended : n ∈ c.shared.effective := ended.resolve_right fun ⟨i, waiting⟩ => by
      rw [(done i).waits] at waiting
      exact waiting
    obtain ⟨written, place, held, inside, same, cached⟩ := stored.effective n ended
    cases found.symm.trans place
    cases own
    obtain ⟨origin, fresh⟩ := copied.writes held inside
    exact ⟨held, cached, fresh, same, same ▸ origin⟩

namespace LinkedPages

theorem runs_stored : (exec PlainUrl.crawler.stepFaulty
    (fun _ event => !(event matches .failWrite _)) (PlainUrl.crawler.initial fun _ => none)
    linkedBack).isSome = true := rfl

theorem announced : PlainUrl.crawler.Announced (endState runs_stored).shared.log
    (TwoPages.second, TwoPages.first) :=
  ⟨⟨TwoPages.second, TwoPages.second, 200, []⟩, TwoPages.first,
    List.mem_of_getElem? (i := 1) rfl, Set.mem_insert _ _⟩

end LinkedPages

end EngineData

end Wookie
