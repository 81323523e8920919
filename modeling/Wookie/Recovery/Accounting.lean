/-
**What becomes of every URL of a recover request.**

`Accounts` is the balance of a recovery in progress: the URLs on the stack, those assigned to a
connection and those whose step has ended make up the retrieved list, and the live connections are
those with a callback pending and the `stuck` ones, which nothing will ever call again.

* `Accounts.processNext` — a connection that is not pending takes a URL or is taken out.
* `Accounts.step`, `Accounts.run` — every callback keeps the balance; one that breaks its chain
  leaves its connection stuck.
-/

import Mathlib.Data.List.Perm.Subperm
import Mathlib.Data.List.Nodup
import Wookie.Recovery.Handler

namespace Wookie

open Library

namespace RecoveryHandler

/-! ### The balance -/

/-- The URLs in progress. -/
def assigned (h : RecoveryHandler) : List Str := h.pending.map (·.url)

/-- The connections with a URL in progress. -/
def active (h : RecoveryHandler) : List ℕ := h.pending.map (·.connection)

/-- The URLs whose push is in progress. -/
def pushing (h : RecoveryHandler) : List Str :=
  (h.pending.filter (·.stage = .pushing)).map (·.url)

/-- The bytes sent. -/
def bytes (h : RecoveryHandler) : ℕ :=
  h.response.countP fun
    | .write _ => true
    | _ => false

/-- No byte is written after a close. The newest event stands first. -/
def NoneAfterClose (response : List ResponseEvent) : Prop :=
  response.Pairwise fun later earlier => ∀ byte, later = .write byte → earlier ≠ .close

/-- **The balance of a recovery in progress.** -/
structure Accounts (retrieved : List Str) (count broken : ℕ) (stuck : List ℕ)
    (h : RecoveryHandler) : Prop where
  partition : (h.urls ++ h.assigned ++ h.ended).Perm retrieved
  read : h.reads.Perm (h.assigned ++ h.ended)
  pushed : h.pushes.Subperm (h.pushing ++ h.ended)
  live : h.processors.Perm (h.active ++ stuck)
  distinct : h.processors.Nodup
  below : h.processors.length ≤ count
  full : h.urls ≠ [] → h.processors.length = count
  written : h.bytes + broken = h.ended.length
  header : h.response.getLast? = some (.headers 200 retrieved.length)
  closed : h.response.count .close = if h.processors = [] ∧ 0 < count then 1 else 0
  quiet : NoneAfterClose h.response

namespace Accounts

variable {retrieved : List Str} {count broken : ℕ} {stuck : List ℕ} {h h' : RecoveryHandler}

theorem perm_stuck {stuck' : List ℕ} (accounts : Accounts retrieved count broken stuck h)
    (same : stuck.Perm stuck') : Accounts retrieved count broken stuck' h :=
  { accounts with live := accounts.live.trans (same.append_left _) }

/-- While a connection is left, nothing was closed. -/
theorem not_closed (accounts : Accounts retrieved count broken stuck h)
    (left : h.processors ≠ []) : ResponseEvent.close ∉ h.response := by
  have none_yet := accounts.closed
  rw [if_neg fun both => left both.1] at none_yet
  exact List.count_eq_zero.mp none_yet

/-- **A connection that finds no URL is taken out**; the last one closes the response. -/
theorem finish {connection : ℕ}
    (accounts : Accounts retrieved count broken (connection :: stuck) h)
    (urls : h.urls = []) :
    Accounts retrieved count broken stuck (h.finishProcessor (some connection)) := by
  have member : connection ∈ h.processors := accounts.live.mem_iff.mpr (by simp)
  have left : h.processors ≠ [] := List.ne_nil_of_mem member
  have length := List.length_erase_of_mem member
  have positive := List.length_pos_iff.mpr left
  have rest : (h.processors.erase connection).Perm (h.active ++ stuck) := by
    have front : h.processors.Perm (connection :: (h.active ++ stuck)) :=
      accounts.live.trans List.perm_middle
    have erased := front.erase connection
    rwa [List.erase_cons_head] at erased
  have below : (h.processors.erase connection).length ≤ count := by
    have before := accounts.below
    omega
  have open_yet := accounts.not_closed left
  unfold finishProcessor
  by_cases last : h.processors.erase connection = []
  · rw [last] at rest below
    simp only [last, List.isEmpty_nil, if_true, respond]
    refine { accounts with
      live := rest
      distinct := List.nodup_nil
      below := below
      full := fun more => absurd urls more
      written := ?_
      header := ?_
      closed := ?_
      quiet := ?_ }
    · rw [← accounts.written]
      simp [bytes]
    · rw [List.getLast?_cons, accounts.header]
      rfl
    · have some_count : 0 < count := Nat.lt_of_lt_of_le positive accounts.below
      simp [List.count_eq_zero.mpr open_yet, some_count]
    · exact List.pairwise_cons.mpr ⟨fun _ _ _ equal => (nomatch equal), accounts.quiet⟩
  · have more : (h.processors.erase connection).isEmpty = false := by simpa using last
    simp only [more, Bool.false_eq_true, if_false]
    refine { accounts with
      live := rest
      distinct := accounts.distinct.erase _
      below := below
      full := fun more => absurd urls more
      closed := ?_ }
    rw [List.count_eq_zero.mpr open_yet, if_neg fun both => last both.1]

/-- **A connection that takes a URL** is pending with it. -/
theorem take {connection : ℕ} {url : Str} {left : List Str}
    (accounts : Accounts retrieved count broken (connection :: stuck) h)
    (urls : h.urls = left ++ [url]) :
    Accounts retrieved count broken stuck { h with
      urls := left
      pending := h.pending ++ [⟨connection, url, .reading⟩]
      reads := url :: h.reads } := by
  have partition := accounts.partition
  have live := accounts.live
  rw [urls] at partition
  refine { accounts with
    partition := ?_
    read := ?_
    pushed := ?_
    live := ?_
    full := fun _ => accounts.full (by rw [urls]; simp) }
  · refine List.Perm.trans ?_ partition
    simp only [assigned, List.map_append, List.map_cons, List.map_nil, List.append_assoc]
    refine List.Perm.append_left left ?_
    exact List.perm_middle.trans (List.Perm.refl _)
  · simp only [assigned, List.map_append, List.map_cons, List.map_nil, List.append_assoc]
    exact (accounts.read.cons url).trans List.perm_middle.symm
  · simpa [pushing] using accounts.pushed
  · simp only [active, List.map_append, List.map_cons, List.map_nil, List.append_assoc,
      List.singleton_append]
    exact live

/-- **A connection with no callback pending goes on.** -/
theorem processNext {connection : ℕ}
    (accounts : Accounts retrieved count broken (connection :: stuck) h) :
    ∃ h', h.processNext (some connection) = some h' ∧
      Accounts retrieved count broken stuck h' := by
  rcases List.eq_nil_or_concat h.urls with urls | ⟨left, url, urls⟩
  · exact ⟨_, processNext_finish urls _, accounts.finish urls⟩
  · rw [List.concat_eq_append] at urls
    exact ⟨_, processNext_take urls connection, accounts.take urls⟩

/-- The `n`-th pending callback stands before the others. -/
theorem perm_eraseIdx {n : ℕ} {callback : RecoveryCallback}
    (found : h.pending[n]? = some callback) :
    h.pending.Perm (callback :: h.pending.eraseIdx n) := by
  obtain ⟨bound, rfl⟩ := List.getElem?_eq_some_iff.mp found
  exact (List.getElem_cons_eraseIdx_perm bound).symm

/-- **A callback whose chain goes no further** leaves its connection stuck and no byte. -/
theorem drop {n connection : ℕ} {url : Str} {stage : RecoveryStage}
    (accounts : Accounts retrieved count broken stuck h)
    (found : h.pending[n]? = some ⟨connection, url, stage⟩) :
    Accounts retrieved count (broken + 1) (connection :: stuck)
      { h with pending := h.pending.eraseIdx n, ended := url :: h.ended } := by
  have front := perm_eraseIdx found
  have urls : h.assigned.Perm (url :: (h.pending.eraseIdx n).map (·.url)) := front.map _
  have connections : h.active.Perm (connection :: (h.pending.eraseIdx n).map (·.connection)) :=
    front.map _
  have pushes : h.pushing.Subperm
      (url :: ((h.pending.eraseIdx n).filter (·.stage = .pushing)).map (·.url)) := by
    have kept : h.pushing.Perm ((RecoveryCallback.mk connection url stage ::
        h.pending.eraseIdx n).filter (·.stage = .pushing) |>.map (·.url)) := (front.filter _).map _
    cases stage with
    | reading => exact kept.subperm.trans (List.sublist_cons_self url _).subperm
    | pushing => exact kept.subperm
  refine { accounts with
    partition := ?_
    read := accounts.read.trans ((urls.append_right h.ended).trans List.perm_middle.symm)
    pushed := ?_
    live := accounts.live.trans ((connections.append_right stuck).trans List.perm_middle.symm)
    written := ?_ }
  · refine List.Perm.trans ?_ accounts.partition
    show (h.urls ++ (h.pending.eraseIdx n).map (·.url) ++ url :: h.ended).Perm _
    rw [List.append_assoc, List.append_assoc]
    refine List.Perm.append_left _ ?_
    exact List.perm_middle.trans (urls.symm.append_right h.ended)
  · exact accounts.pushed.trans
      (((List.subperm_append_right h.ended).mpr pushes).trans List.perm_middle.symm.subperm)
  · show h.bytes + (broken + 1) = h.ended.length + 1
    rw [← accounts.written, Nat.add_assoc]

/-- **A byte** makes up for one chain that would be broken. -/
theorem write {byte : Char} (accounts : Accounts retrieved count (broken + 1) stuck h)
    (left : h.processors ≠ []) :
    Accounts retrieved count broken stuck (h.respond (.write byte)) := by
  refine { accounts with
    written := ?_
    header := ?_
    closed := ?_
    quiet := ?_ }
  · have written := accounts.written
    simp only [bytes, respond, List.countP_cons, if_true] at written ⊢
    omega
  · show (ResponseEvent.write byte :: h.response).getLast? = _
    rw [List.getLast?_cons, accounts.header]
    rfl
  · have other : ResponseEvent.write byte ≠ .close := fun equal => nomatch equal
    show (ResponseEvent.write byte :: h.response).count .close = _
    rw [List.count_cons_of_ne other]
    exact accounts.closed
  · refine List.pairwise_cons.mpr ⟨fun earlier member _ _ equal => ?_, accounts.quiet⟩
    exact accounts.not_closed left (equal ▸ member)

/-- A push is issued for the URL of a read callback. -/
theorem push {n connection : ℕ} {url : Str} (accounts : Accounts retrieved count broken stuck h)
    (found : h.pending[n]? = some ⟨connection, url, .reading⟩) :
    (url :: h.pushes).Subperm
      (url :: ((h.pending.eraseIdx n).filter (·.stage = .pushing)).map (·.url) ++ h.ended) := by
  have pushes : h.pushing.Perm
      (((h.pending.eraseIdx n).filter (·.stage = .pushing)).map (·.url)) :=
    ((perm_eraseIdx found).filter _).map _
  exact (List.subperm_cons url).mpr (accounts.pushed.trans (pushes.append_right h.ended).subperm)

/-- **The read callback**: its chain goes on to the push, or goes no further. -/
theorem onRead {n connection : ℕ} {url : Str} (accounts : Accounts retrieved count broken stuck h)
    (found : h.pending[n]? = some ⟨connection, url, .reading⟩) (outcome : ReadOutcome) :
    if outcome = .pushed then
      Accounts retrieved count broken stuck (h.onRead n connection url outcome)
    else Accounts retrieved count (broken + 1) (connection :: stuck)
      (h.onRead n connection url outcome) := by
  have dropped := accounts.drop found
  have pushes := accounts.push found
  cases outcome with
  | failed => exact dropped
  | pushThrew =>
    exact { dropped with pushed := pushes.trans List.perm_middle.symm.subperm }
  | pushed =>
    have front := perm_eraseIdx found
    have urls : h.assigned.Perm ((h.pending.eraseIdx n).map (·.url) ++ [url]) :=
      (front.map _).trans (List.perm_append_singleton _ _).symm
    have connections :
        h.active.Perm ((h.pending.eraseIdx n).map (·.connection) ++ [connection]) :=
      (front.map _).trans (List.perm_append_singleton _ _).symm
    refine { accounts with
      partition := ?_
      read := ?_
      pushed := ?_
      live := ?_ }
    · refine List.Perm.trans ?_ accounts.partition
      simpa [assigned, RecoveryHandler.onRead] using
        ((urls.symm.append_right h.ended).append_left h.urls)
    · simpa [assigned, RecoveryHandler.onRead] using accounts.read.trans (urls.append_right h.ended)
    · simpa [pushing, RecoveryHandler.onRead] using pushes.trans List.perm_middle.symm.subperm
    · simpa [active, RecoveryHandler.onRead] using
        accounts.live.trans (connections.append_right stuck)

/-- **The push callback** writes a byte, and its connection goes on. -/
theorem onPush {n connection : ℕ} {url : Str} {ok : Bool}
    (accounts : Accounts retrieved count broken stuck h)
    (found : h.pending[n]? = some ⟨connection, url, .pushing⟩)
    (pushed : h.onPush n connection url ok = some h') :
    Accounts retrieved count broken stuck h' := by
  have dropped := accounts.drop found
  have member : connection ∈ h.processors := dropped.live.mem_iff.mpr (by simp)
  obtain ⟨after, next, accounts'⟩ := (dropped.write (List.ne_nil_of_mem member)).processNext
  cases next.symm.trans pushed
  exact accounts'

/-- A chain goes no further at this event. -/
def breaks : RecoveryEvent → Bool
  | .read _ outcome => outcome != .pushed
  | .push _ _ => false

/-- **Every step keeps the balance.** -/
theorem step {event : RecoveryEvent} (accounts : Accounts retrieved count broken stuck h)
    (stepped : h.step event = some h') :
    ∃ stuck', stuck'.length = stuck.length + (if breaks event then 1 else 0) ∧
      Accounts retrieved count (broken + if breaks event then 1 else 0) stuck' h' := by
  obtain ⟨n, connection, url, ⟨outcome, rfl, found, rfl⟩ | ⟨ok, rfl, found, pushed⟩⟩ :=
    step_spec stepped
  · have after := accounts.onRead found outcome
    by_cases kept : outcome = .pushed
    · rw [if_pos kept] at after
      exact ⟨stuck, by simp [breaks, kept], by simpa [breaks, kept] using after⟩
    · rw [if_neg kept] at after
      exact ⟨connection :: stuck, by simp [breaks, kept], by simpa [breaks, kept] using after⟩
  · exact ⟨stuck, rfl, accounts.onPush found pushed⟩

/-- **A whole run**: the connections that were stuck at its start, and one for each chain broken. -/
theorem run {start : RecoveryHandler} {events : List RecoveryEvent}
    (accounts : Accounts retrieved count 0 stuck start)
    (run : Run RecoveryHandler.step AnyStep start events h) :
    ∃ stuck', stuck'.length = stuck.length + events.countP breaks ∧
      Accounts retrieved count (events.countP breaks) stuck' h :=
  run.history
    (fun events h => ∃ stuck', stuck'.length = stuck.length + events.countP breaks ∧
      Accounts retrieved count (events.countP breaks) stuck' h)
    ⟨stuck, rfl, accounts⟩
    fun before h event h' ⟨stuck', length, accounts⟩ _ stepped => by
      obtain ⟨after, grown, accounts'⟩ := accounts.step stepped
      refine ⟨after, ?_, ?_⟩
      · rw [grown, length, List.countP_append, List.countP_singleton, Nat.add_assoc]
      · rw [List.countP_append, List.countP_singleton]
        exact accounts'

end Accounts

end RecoveryHandler

end Wookie
