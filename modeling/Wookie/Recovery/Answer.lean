/-
**What the user of a recover request is told.**

* `Starting` — the start loop skips every second connection that finds no URL: `process_next` erases
  the slot the loop is at, and the next connection moves into it. Of the connections there are too
  many, half stay stuck.
* `recovery_keeps_every_url` — no URL is lost or done twice, whatever fails.
* `answered_iff` — the user is answered in full exactly where no chain breaks and no connection
  stays stuck.
-/

import Mathlib.Data.List.Range
import Wookie.Recovery.Accounting

namespace Wookie

open Library

namespace RecoveryHandler

/-! ### The start loop -/

/-- **After `slot` rounds of the start loop**: the connections before the slot have a URL each, as
far as there were any; every later round took out a connection, until half of those left over were
gone and the loop came to the slots the vector no longer has. -/
structure Starting (retrieved : List Str) (count slot : ℕ) (h : RecoveryHandler) : Prop where
  accounts : ∃ stuck, Accounts retrieved count 0 stuck h
  urls : h.urls.length = retrieved.length - slot
  active : h.active = List.range (min slot retrieved.length)
  front : h.processors.take (min count retrieved.length) =
    List.range (min count retrieved.length)
  length : h.processors.length =
    count - min (slot - retrieved.length) ((count - retrieved.length + 1) / 2)

namespace Starting

variable {retrieved : List Str} {count slot : ℕ} {h : RecoveryHandler}

theorem initial (retrieved : List Str) (count : ℕ) :
    Starting retrieved count 0
      (respond (.headers 200 retrieved.length) { connected count with urls := retrieved }) where
  accounts := by
    have some_left : ¬ (List.range count = [] ∧ 0 < count) := by
      rw [List.range_eq_nil]
      omega
    exact ⟨List.range count, {
      partition := by simp [respond, connected, assigned]
      read := List.Perm.refl _
      pushed := List.Subperm.refl _
      live := List.Perm.refl _
      distinct := List.nodup_range
      below := List.length_range.le
      full := fun _ => List.length_range
      written := rfl
      header := rfl
      closed := (if_neg some_left).symm
      quiet := List.pairwise_singleton _ _ }⟩
  urls := rfl
  active := by simp [respond, connected, RecoveryHandler.active]
  front := by simp [respond, connected, List.take_range]
  length := by simp [respond, connected]

/-- A connection that is in the vector and has no URL is one of the stuck. -/
theorem stuck_front (starting : Starting retrieved count slot h) {connection : ℕ}
    (member : connection ∈ h.processors) (idle : connection ∉ h.active) :
    ∃ stuck, Accounts retrieved count 0 (connection :: stuck) h := by
  obtain ⟨stuck, accounts⟩ := starting.accounts
  rcases List.mem_append.mp (accounts.live.mem_iff.mp member) with busy | inside
  · exact absurd busy idle
  · exact ⟨_, accounts.perm_stuck (List.perm_cons_erase inside)⟩

/-- The connections of the first slots stay where they were. -/
theorem slot_front (starting : Starting retrieved count slot h) {i : ℕ} (bound : i < count)
    (served : i < retrieved.length) : h.processors[i]? = some i := by
  have inside : i < min count retrieved.length := by omega
  have read := congrArg (·[i]?) starting.front
  simpa only [List.getElem?_take, List.getElem?_range, inside, if_true] using read

/-- A round with a URL left gives it to the connection of the slot. -/
theorem next_take (starting : Starting retrieved count slot h) (bound : slot < count)
    (left : slot < retrieved.length) :
    ∃ h', h.processNext h.processors[slot]? = some h' ∧
      Starting retrieved count (slot + 1) h' := by
  have here := starting.slot_front bound left
  have before : h.active = List.range slot := by
    rw [starting.active, Nat.min_eq_left (Nat.le_of_lt left)]
  obtain ⟨stuck, accounts⟩ := starting.stuck_front (List.mem_of_getElem? here)
    (by rw [before]; exact List.not_mem_range_self)
  have length := starting.urls
  rcases List.eq_nil_or_concat h.urls with none_left | ⟨rest, url, urls⟩
  · rw [none_left, List.length_nil] at length
    omega
  · rw [List.concat_eq_append] at urls
    rw [urls, List.length_append, List.length_singleton] at length
    rw [here]
    refine ⟨_, processNext_take urls slot, ⟨stuck, accounts.take urls⟩, ?_, ?_, starting.front, ?_⟩
    · show rest.length = _
      omega
    · show (h.pending ++ [RecoveryCallback.mk slot url .reading]).map (·.connection) = _
      rw [List.map_append, List.map_singleton, Nat.min_eq_left left, List.range_succ, ← before]
      rfl
    · show h.processors.length = _
      rw [starting.length]
      omega

/-- A round without one takes the connection of the slot out, if the vector still has the slot. -/
theorem next_finish (starting : Starting retrieved count slot h) (bound : slot < count)
    (none_left : retrieved.length ≤ slot) :
    ∃ h', h.processNext h.processors[slot]? = some h' ∧
      Starting retrieved count (slot + 1) h' := by
  have length := starting.length
  have before : h.active = List.range retrieved.length := by
    rw [starting.active, Nat.min_eq_right none_left]
  have urls : h.urls = [] := by
    apply List.eq_nil_of_length_eq_zero
    rw [starting.urls]
    omega
  refine ⟨_, processNext_finish urls _, ?_⟩
  by_cases alive : slot < h.processors.length
  · have here : h.processors[slot]? = some h.processors[slot] := List.getElem?_eq_getElem alive
    have idle : h.processors[slot] ∉ h.active := fun busy => by
      rw [before, List.mem_range] at busy
      have there := starting.slot_front (by omega) busy
      obtain ⟨stuck, accounts⟩ := starting.accounts
      have same := (List.getElem?_inj alive accounts.distinct).mp (here.trans there.symm)
      omega
    obtain ⟨stuck, accounts⟩ := starting.stuck_front (List.getElem_mem alive) idle
    have gone : h.processors.erase h.processors[slot] = h.processors.eraseIdx slot :=
      accounts.distinct.erase_getElem slot alive
    have half : slot - retrieved.length < (count - retrieved.length + 1) / 2 := by omega
    rw [here]
    refine ⟨⟨stuck, accounts.finish urls⟩, ?_, ?_, ?_, ?_⟩
    · rw [finishProcessor_urls, starting.urls]
      omega
    · rw [RecoveryHandler.active, finishProcessor_pending, Nat.min_eq_right (by omega)]
      exact before
    · rw [finishProcessor_processors, gone, List.take_eraseIdx_eq_take_of_le _ _ _ (by omega)]
      exact starting.front
    · rw [finishProcessor_processors, gone, List.length_eraseIdx_of_lt alive, length]
      omega
  · -- the vector has no such slot any more: the pointer that was there is null
    have half : (count - retrieved.length + 1) / 2 ≤ slot - retrieved.length := by omega
    have left : h.processors ≠ [] := fun empty => by
      rw [empty, List.length_nil] at length
      omega
    rw [List.getElem?_eq_none (Nat.le_of_not_lt alive), finishProcessor_null left]
    refine ⟨starting.accounts, ?_, ?_, starting.front, ?_⟩
    · rw [starting.urls]
      omega
    · rw [before, Nat.min_eq_right (by omega)]
    · rw [length]
      omega

theorem next (starting : Starting retrieved count slot h) (bound : slot < count) :
    ∃ h', h.processNext h.processors[slot]? = some h' ∧
      Starting retrieved count (slot + 1) h' := by
  by_cases left : slot < retrieved.length
  · exact starting.next_take bound left
  · exact starting.next_finish bound (Nat.le_of_not_lt left)

/-- **The first rounds of the loop**, by induction on their number. -/
theorem startLoop (starting : Starting retrieved count 0 h) :
    ∀ slots ≤ count, ∃ h', h.startLoop slots = some h' ∧ Starting retrieved count slots h' := by
  intro slots
  induction slots with
  | zero => exact fun _ => ⟨h, rfl, starting⟩
  | succ slots ih =>
    intro bound
    obtain ⟨before, looped, starting'⟩ := ih (by omega)
    obtain ⟨after, next, starting''⟩ := starting'.next bound
    refine ⟨after, ?_, starting''⟩
    unfold RecoveryHandler.startLoop at looped ⊢
    rw [List.range_succ, List.foldlM_append, looped]
    exact (bind_pure _).trans next

end Starting

/-- **The start loop** gives a URL to each connection as far as there are any, and leaves half of
the others stuck. -/
theorem onFound_accounts (count : ℕ) (retrieved : List Str) :
    ∃ h, onFound count retrieved = some h ∧ ∃ stuck,
      stuck.length = (count - retrieved.length) / 2 ∧ Accounts retrieved count 0 stuck h := by
  obtain ⟨h, found, starting⟩ := (Starting.initial retrieved count).startLoop count (Nat.le_refl _)
  obtain ⟨stuck, accounts⟩ := starting.accounts
  refine ⟨h, found, stuck, ?_, accounts⟩
  have live := accounts.live.length_eq
  rw [List.length_append, starting.length, starting.active, List.length_range] at live
  omega

/-! ### No URL is lost or done twice -/

/-- **What holds of a recovery in every state.** -/
structure KeepsEveryUrl (retrieved : List Str) (h : RecoveryHandler) : Prop where
  /-- On the stack, in progress, or ended. -/
  partition : (h.urls ++ h.assigned ++ h.ended).Perm retrieved
  /-- Those that left the stack were read, each once. -/
  read_once : h.reads.Perm (h.assigned ++ h.ended)
  pushed_at_most_once : h.pushes.Subperm (h.assigned ++ h.ended)
  one_in_progress : h.active.Nodup
  bytes_le : h.bytes ≤ retrieved.length
  none_after_close : NoneAfterClose h.response

theorem Accounts.keepsEveryUrl {retrieved : List Str} {count broken : ℕ} {stuck : List ℕ}
    {h : RecoveryHandler} (accounts : Accounts retrieved count broken stuck h) :
    KeepsEveryUrl retrieved h where
  partition := accounts.partition
  read_once := accounts.read
  pushed_at_most_once := accounts.pushed.trans
    ((List.filter_sublist.map _).append_right h.ended).subperm
  one_in_progress :=
    (List.nodup_append.mp (accounts.live.nodup_iff.mp accounts.distinct)).1
  bytes_le := by
    have whole := accounts.partition.length_eq
    have written := accounts.written
    rw [List.length_append] at whole
    omega
  none_after_close := accounts.quiet

/-- **Recovery neither loses nor duplicates work**, for every number of connections and every order
and outcome of the callbacks. -/
theorem recovery_keeps_every_url (count : ℕ) (retrieved : List Str) :
    ∃ start, onFound count retrieved = some start ∧
      ∀ events h, Run step AnyStep start events h → KeepsEveryUrl retrieved h := by
  obtain ⟨start, found, stuck, _, accounts⟩ := onFound_accounts count retrieved
  refine ⟨start, found, fun events h run => ?_⟩
  obtain ⟨stuck', _, accounts'⟩ := accounts.run run
  exact accounts'.keepsEveryUrl

/-- Two connections for three URLs; the second read fails. -/
theorem recovery_keeps_every_url_three :
    ∃ h, KeepsEveryUrl [['a'], ['b'], ['c']] h ∧ h.urls = [] ∧ h.assigned = [['a']] ∧
      h.ended = [['c'], ['b']] := by
  obtain ⟨start, found, keeps⟩ := recovery_keeps_every_url 2 [['a'], ['b'], ['c']]
  obtain rfl : (onFound 2 [['a'], ['b'], ['c']]).get rfl = start := Option.get_of_eq_some _ found
  have runs : (exec step (fun _ _ => true) ((onFound 2 [['a'], ['b'], ['c']]).get rfl)
    [.read 0 .pushed, .read 0 .failed, .push 0 true]).isSome = true := rfl
  exact ⟨endState runs, keeps _ _ (Run.of_endState (fun _ _ _ => trivial) runs), rfl, rfl, rfl⟩

/-! ### When the user is answered in full -/

/-- **The response is complete**: a byte for every URL, as many as its `Content-Length` says, and
closed once, after the last byte. -/
structure Answered (retrieved : List Str) (h : RecoveryHandler) : Prop where
  header : h.response.getLast? = some (.headers 200 retrieved.length)
  every_byte : h.bytes = retrieved.length
  closed_once : h.response.count .close = 1
  none_after_close : NoneAfterClose h.response

/-- **When no callback is pending any more, the response is complete exactly if** no read failed, no
`push_raw` threw, and there was at most one connection more than URLs. -/
theorem answered_iff (count : ℕ) (positive : 0 < count) (retrieved : List Str) :
    ∃ start, onFound count retrieved = some start ∧
      ∀ events h, Run step AnyStep start events h → h.pending = [] →
        (Answered retrieved h ↔
          (∀ event ∈ events, Accounts.breaks event = false) ∧ count ≤ retrieved.length + 1) := by
  obtain ⟨start, found, stuck, half, accounts⟩ := onFound_accounts count retrieved
  refine ⟨start, found, fun events h run idle => ?_⟩
  obtain ⟨stuck', length, accounts'⟩ := accounts.run run
  have left : h.processors.length = stuck'.length := by
    have live := accounts'.live.length_eq
    simpa [active, idle] using live
  have unbroken : (∀ event ∈ events, Accounts.breaks event = false) ↔
      events.countP Accounts.breaks = 0 := by
    simp [List.countP_eq_zero]
  rw [unbroken]
  constructor
  · intro answered
    have closed := accounts'.closed
    rw [answered.closed_once] at closed
    have empty : h.processors = [] := by
      by_contra some_left
      rw [if_neg fun both => some_left both.1] at closed
      cases closed
    rw [empty, List.length_nil] at left
    omega
  · rintro ⟨none_broken, enough⟩
    have empty : h.processors = [] := by
      apply List.eq_nil_of_length_eq_zero
      omega
    have urls : h.urls = [] := by
      by_contra more
      have full := accounts'.full more
      rw [empty, List.length_nil] at full
      omega
    refine ⟨accounts'.header, ?_, ?_, accounts'.quiet⟩
    · have whole := accounts'.partition.length_eq
      have written := accounts'.written
      rw [none_broken] at written
      simp only [urls, assigned, idle, List.map_nil, List.nil_append] at whole
      omega
    · rw [accounts'.closed, if_pos ⟨empty, positive⟩]

/-- Two connections for one URL. -/
theorem answered_iff_two : ∃ h, Answered [['a']] h := by
  obtain ⟨start, found, answered⟩ := answered_iff 2 (by decide) [['a']]
  obtain rfl : (onFound 2 [['a']]).get rfl = start := Option.get_of_eq_some _ found
  have runs : (exec step (fun _ _ => true) ((onFound 2 [['a']]).get rfl)
    [.read 0 .pushed, .push 0 false]).isSome = true := rfl
  have run := Run.of_endState (fun _ _ _ => trivial) runs
  exact ⟨endState runs, (answered _ _ run rfl).mpr ⟨by decide, by decide⟩⟩

/-- One connection, one URL, and its read fails: no byte is sent, and nothing is closed. -/
theorem failed_read_unanswered :
    ¬ ∀ (count : ℕ) (retrieved : List Str) (start : RecoveryHandler)
      (events : List RecoveryEvent) (h : RecoveryHandler), 0 < count →
      onFound count retrieved = some start → Run step AnyStep start events h → h.pending = [] →
      Answered retrieved h := by
  intro answers
  have runs : (exec step (fun _ _ => true) ((onFound 1 [['a']]).get rfl)
    [.read 0 .failed]).isSome = true := rfl
  have run := Run.of_endState (fun _ _ _ => trivial) runs
  have answered := answers 1 [['a']] _ _ _ (by decide) (Option.some_get rfl).symm run rfl
  have bytes := answered.every_byte
  cases bytes

end RecoveryHandler

end Wookie
