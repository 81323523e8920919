/-
**The recovery handler: `recovery_handler` of `processors/recovery.cpp`.**

A recover request opens `count` connections to a processor and retrieves the list of unprocessed
URLs. Each connection then runs a chain of callbacks: take a URL off the back of the list, read its
metadata, push it, write a byte, go on with the next URL; a connection that finds no URL is taken
out of the list of connections, and the last one closes the response.

Callbacks run one after the other, as nothing in the handler is locked. A vector's slot past its end
is null in the start loop: `vector::erase` moved the pointer out of it.
-/

import Wookie.Library.Pool
import Wookie.Record

namespace Wookie

/-- What a callback waits for. -/
inductive RecoveryStage
  | reading
  | pushing
  deriving DecidableEq

/-- A pending callback of a chain. -/
structure RecoveryCallback where
  /-- `std::shared_ptr<processor_t> processor`. -/
  connection : ℕ
  url : Str
  stage : RecoveryStage

/-- What the handler sends to the user. -/
inductive ResponseEvent
  | headers (code contentLength : ℕ)
  | write (byte : Char)
  | close
  deriving DecidableEq

/-- `recovery_handler`, with the calls it issued. -/
structure RecoveryHandler where
  processors : List ℕ
  /-- A vector: its back is the last element. -/
  urls : List Str
  pending : List RecoveryCallback
  /-- Newest first, as are the lists below. -/
  response : List ResponseEvent
  reads : List Str
  pushes : List Str
  /-- The URLs whose step of the chain has ended. -/
  ended : List Str

/-- How the read callback ends. -/
inductive ReadOutcome
  /-- `future.next()` threw. -/
  | failed
  /-- `push_raw` threw. -/
  | pushThrew
  | pushed
  deriving DecidableEq

/-- A callback is called. -/
inductive RecoveryEvent
  | read (n : ℕ) (outcome : ReadOutcome)
  | push (n : ℕ) (ok : Bool)

namespace RecoveryHandler

/-- `response()->write_headers`, `write` and `close`. -/
def respond (event : ResponseEvent) (h : RecoveryHandler) : RecoveryHandler :=
  { h with response := event :: h.response }

/-- `finish_processor`; `none` is a null pointer, which no connection is equal to. -/
def finishProcessor (processor : Option ℕ) (h : RecoveryHandler) : RecoveryHandler :=
  let processors :=
    match processor with
    | some connection => h.processors.erase connection
    | none => h.processors
  if processors.isEmpty then respond .close { h with processors := processors }
  else { h with processors := processors }

/-- `process_next`; there is no result if a null pointer is dereferenced. -/
def processNext (processor : Option ℕ) (h : RecoveryHandler) : Option RecoveryHandler :=
  match h.urls.getLast?, processor with
  | none, _ => some (h.finishProcessor processor)
  | some url, some connection =>
    some { h with
      urls := h.urls.dropLast
      pending := h.pending ++ [⟨connection, url, .reading⟩]
      reads := url :: h.reads }
  | some _, none => none

/-- The callback of `read`. After an exception the chain goes no further. -/
def onRead (n : ℕ) (connection : ℕ) (url : Str) (outcome : ReadOutcome) (h : RecoveryHandler) :
    RecoveryHandler :=
  match outcome with
  | .failed => { h with pending := h.pending.eraseIdx n, ended := url :: h.ended }
  | .pushThrew =>
    { h with pending := h.pending.eraseIdx n, pushes := url :: h.pushes, ended := url :: h.ended }
  | .pushed =>
    { h with
      pending := h.pending.eraseIdx n ++ [⟨connection, url, .pushing⟩]
      pushes := url :: h.pushes }

/-- The callback of `push_raw`. -/
def onPush (n : ℕ) (connection : ℕ) (url : Str) (ok : Bool) (h : RecoveryHandler) :
    Option RecoveryHandler :=
  ({ h with pending := h.pending.eraseIdx n, ended := url :: h.ended }.respond
    (.write (if ok then 's' else 'f'))).processNext (some connection)

/-- One step: the `n`-th pending callback is called. -/
def step (h : RecoveryHandler) : RecoveryEvent → Option RecoveryHandler
  | .read n outcome =>
    match h.pending[n]? with
    | some ⟨connection, url, .reading⟩ => some (h.onRead n connection url outcome)
    | _ => none
  | .push n ok =>
    match h.pending[n]? with
    | some ⟨connection, url, .pushing⟩ => h.onPush n connection url ok
    | _ => none

/-- The handler once its connections are established. -/
def connected (count : ℕ) : RecoveryHandler where
  processors := List.range count
  urls := []
  pending := []
  response := []
  reads := []
  pushes := []
  ended := []

/-- The start loop: a range-for over `processors`, which `process_next` erases from. The slots are
those the vector had when the loop began. The loop is the callback of the retrieval of the URLs, and
no callback of a read it starts runs before it has ended. -/
def startLoop (slots : ℕ) (h : RecoveryHandler) : Option RecoveryHandler :=
  (List.range slots).foldlM (fun h slot => h.processNext h.processors[slot]?) h

/-- The callback of `find`. -/
def onFound (count : ℕ) (urls : List Str) : Option RecoveryHandler :=
  startLoop count (respond (.headers 200 urls.length) { connected count with urls := urls })

/-! ### What the steps do -/

variable {h h' : RecoveryHandler}

/-- **All a step can do.** -/
theorem step_spec {event : RecoveryEvent} (stepped : h.step event = some h') :
    ∃ n connection url,
      (∃ outcome, event = .read n outcome ∧ h.pending[n]? = some ⟨connection, url, .reading⟩ ∧
        h' = h.onRead n connection url outcome) ∨
      (∃ ok, event = .push n ok ∧ h.pending[n]? = some ⟨connection, url, .pushing⟩ ∧
        h.onPush n connection url ok = some h') := by
  cases event with
  | read n outcome =>
    simp only [step] at stepped
    split at stepped
    · rename_i connection url found
      cases stepped
      exact ⟨n, connection, url, Or.inl ⟨outcome, rfl, found, rfl⟩⟩
    · cases stepped
  | push n ok =>
    simp only [step] at stepped
    split at stepped
    · rename_i connection url found
      exact ⟨n, connection, url, Or.inr ⟨ok, rfl, found, stepped⟩⟩
    · cases stepped

/-- **A connection with a URL left takes it.** -/
theorem processNext_take {url : Str} {left : List Str} (urls : h.urls = left ++ [url])
    (connection : ℕ) :
    h.processNext (some connection) = some { h with
      urls := left
      pending := h.pending ++ [⟨connection, url, .reading⟩]
      reads := url :: h.reads } := by
  unfold processNext
  rw [urls, List.getLast?_concat, List.dropLast_concat]

theorem processNext_finish (urls : h.urls = []) (processor : Option ℕ) :
    h.processNext processor = some (h.finishProcessor processor) := by
  unfold processNext
  rw [urls]
  rfl

@[simp] theorem finishProcessor_urls (processor : Option ℕ) :
    (h.finishProcessor processor).urls = h.urls := by
  cases processor <;> dsimp only [finishProcessor] <;> split <;> rfl

@[simp] theorem finishProcessor_pending (processor : Option ℕ) :
    (h.finishProcessor processor).pending = h.pending := by
  cases processor <;> dsimp only [finishProcessor] <;> split <;> rfl

@[simp] theorem finishProcessor_processors (connection : ℕ) :
    (h.finishProcessor (some connection)).processors = h.processors.erase connection := by
  unfold finishProcessor
  dsimp only
  split <;> rfl

/-- A null pointer is not found, and closes nothing while a connection is left. -/
theorem finishProcessor_null (left : h.processors ≠ []) : h.finishProcessor none = h := by
  unfold finishProcessor
  rw [if_neg (by simpa using left)]

end RecoveryHandler

end Wookie
