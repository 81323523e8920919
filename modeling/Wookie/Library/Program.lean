/-
**Programs over an interface, and the protocols they follow.**

A callback chain of an asynchronous program asks its surroundings one question after another: a
store is read, a lock-protected map is changed, a message is sent. `Program Answer α` is such a
chain, with the answer to each question handed to the rest of the chain; an exception ends it.

* `Occurs o c` and `Returns c a` — `c` asks `o`, or ends with `a`, along some path of answers.
* `Path c steps` — the questions `c` asks along one complete path, with their answers.
* `Typestate` — a protocol on questions: which may be asked in which phase, which answers can come,
  and the phase that follows.
* `Follows T final φ c` — along every path of answers the protocol admits, `c` only asks what the
  protocol allows from phase `φ`, and ends in a phase of `final`.
* `Adheres T thrown final φ c` — the same, with an exception only in a phase of `thrown`. Closed
  under sequencing (`Adheres.bind`) and loops (`Adheres.forEach`).
* `Typestate.alone` — what a program does when nothing else touches the state it asks about: the
  phases are the states.
* `Typestate.stateless` — a protocol of one phase; `Follows.of_occurs` reads it off each question.
-/

import Mathlib.Order.Notation
import Mathlib.Logic.Basic
import Mathlib.Logic.IsEmpty.Basic

namespace Wookie.Library

/-- A program asking questions `o : Op`, each answered by an `Answer o`. -/
inductive Program {Op : Type} (Answer : Op → Type) (α : Type) : Type
  | pure (value : α)
  | throw
  | op (o : Op) (next : Answer o → Program Answer α)

namespace Program

variable {Op : Type} {Answer : Op → Type} {α β : Type}

/-- Run `c`, hand its value to `f`. An exception of `c` skips `f`. -/
def bind (c : Program Answer α) (f : α → Program Answer β) : Program Answer β :=
  match c with
  | .pure value => f value
  | .throw => .throw
  | .op o next => .op o fun answer => (next answer).bind f

instance : Monad (Program Answer) where
  pure := .pure
  bind := bind

/-- Ask one question and return its answer. -/
def ask (o : Op) : Program Answer (Answer o) := .op o .pure

/-- The loop `for (auto it : xs) f(it)`. -/
def forEach (xs : List β) (f : β → Program Answer Unit) : Program Answer Unit :=
  match xs with
  | [] => .pure ()
  | x :: rest => (f x).bind fun _ => forEach rest f

@[simp] theorem pure_eq (value : α) : (Pure.pure value : Program Answer α) = .pure value := rfl

@[simp] theorem bind_eq (c : Program Answer α) (f : α → Program Answer β) : c >>= f = c.bind f :=
  rfl

@[simp] theorem pure_bind (value : α) (f : α → Program Answer β) :
    (Program.pure value : Program Answer α).bind f = f value := rfl

@[simp] theorem throw_bind (f : α → Program Answer β) :
    (Program.throw : Program Answer α).bind f = .throw := rfl

@[simp] theorem op_bind (o : Op) (next : Answer o → Program Answer α)
    (f : α → Program Answer β) :
    (Program.op o next).bind f = .op o fun answer => (next answer).bind f := rfl

@[simp] theorem ask_bind (o : Op) (f : Answer o → Program Answer β) :
    (ask o).bind f = .op o f := rfl

/-! ### Questions asked along some path -/

/-- `c` asks `o` along some path of answers. -/
inductive Occurs (o : Op) : Program Answer α → Prop
  | here (next : Answer o → Program Answer α) : Occurs o (.op o next)
  | later (first : Op) (next : Answer first → Program Answer α) (answer : Answer first) :
      Occurs o (next answer) → Occurs o (.op first next)

/-- `c` ends with `value` along some path of answers. -/
inductive Returns : Program Answer α → α → Prop
  | pure (value : α) : Returns (.pure value) value
  | op (o : Op) (next : Answer o → Program Answer α) (answer : Answer o) (value : α) :
      Returns (next answer) value → Returns (.op o next) value

theorem Occurs.bind_right {o : Op} {c : Program Answer α} {f : α → Program Answer β} {value : α}
    (returns : Returns c value) (occurs : Occurs o (f value)) : Occurs o (c.bind f) := by
  induction returns with
  | pure value => exact occurs
  | op first next answer value _ ih => exact .later first _ answer (ih occurs)

theorem Occurs.bind_left {o : Op} {c : Program Answer α} (f : α → Program Answer β)
    (occurs : Occurs o c) : Occurs o (c.bind f) := by
  induction occurs with
  | here next => exact .here _
  | later first next answer _ ih => exact .later first _ answer ih

theorem Returns.bind {c : Program Answer α} {f : α → Program Answer β} {value : α} {result : β}
    (returns : Returns c value) (rest : Returns (f value) result) : Returns (c.bind f) result := by
  induction returns with
  | pure value => exact rest
  | op first next answer value _ ih => exact .op first _ answer result (ih rest)

theorem occurs_ask (o : Op) : Occurs o (ask o : Program Answer (Answer o)) := .here .pure

theorem returns_ask (o : Op) (answer : Answer o) : Returns (ask o) answer :=
  .op o .pure answer answer (.pure answer)

/-- **A round is reached when every round can end.** -/
theorem Occurs.forEach {o : Op} {xs : List β} {f : β → Program Answer Unit}
    (ends : ∀ x ∈ xs, Returns (f x) ()) {x : β} (member : x ∈ xs) (occurs : Occurs o (f x)) :
    Occurs o (forEach xs f) := by
  induction xs with
  | nil => cases member
  | cons y rest ih =>
    rcases List.mem_cons.mp member with rfl | later
    · exact occurs.bind_left _
    · exact Occurs.bind_right (ends y List.mem_cons_self)
        (ih (fun z inside => ends z (List.mem_cons_of_mem _ inside)) later)

theorem Returns.forEach {xs : List β} {f : β → Program Answer Unit}
    (ends : ∀ x ∈ xs, Returns (f x) ()) : Returns (forEach xs f) () := by
  induction xs with
  | nil => exact .pure ()
  | cons y rest ih =>
    exact (ends y List.mem_cons_self).bind
      (ih fun z inside => ends z (List.mem_cons_of_mem _ inside))

/-! ### Complete paths -/

/-- The questions asked and the answers given along one path through `c`, until `c` ends or asks
what is never answered. -/
inductive Path : Program Answer α → List (Σ o, Answer o) → Prop
  | pure (value : α) : Path (.pure value) []
  | throw : Path .throw []
  | blocked (o : Op) (next : Answer o → Program Answer α) (never : IsEmpty (Answer o)) :
      Path (.op o next) []
  | op (o : Op) (next : Answer o → Program Answer α) (answer : Answer o)
      (steps : List (Σ o, Answer o)) : Path (next answer) steps →
      Path (.op o next) (⟨o, answer⟩ :: steps)

variable {steps : List (Σ o, Answer o)}

theorem path_pure {value : α} : Path (.pure value : Program Answer α) steps ↔ steps = [] := by
  constructor
  · intro path
    cases path
    rfl
  · rintro rfl
    exact .pure value

theorem path_throw : Path (.throw : Program Answer α) steps ↔ steps = [] := by
  constructor
  · intro path
    cases path
    rfl
  · rintro rfl
    exact .throw

theorem path_op {o : Op} {next : Answer o → Program Answer α} :
    Path (.op o next) steps ↔ IsEmpty (Answer o) ∧ steps = [] ∨
      ∃ answer rest, Path (next answer) rest ∧ steps = ⟨o, answer⟩ :: rest := by
  constructor
  · intro path
    cases path with
    | blocked _ _ never => exact .inl ⟨never, rfl⟩
    | op _ _ answer rest path => exact .inr ⟨answer, rest, path, rfl⟩
  · rintro (⟨never, rfl⟩ | ⟨answer, rest, path, rfl⟩)
    · exact .blocked o next never
    · exact .op o next answer rest path

/-- A question that is always answered. -/
theorem path_op_of_nonempty {o : Op} [answered : Nonempty (Answer o)]
    {next : Answer o → Program Answer α} :
    Path (.op o next) steps ↔ ∃ answer rest, Path (next answer) rest ∧
      steps = ⟨o, answer⟩ :: rest := by
  rw [path_op, or_iff_right fun blocked => not_isEmpty_of_nonempty (Answer o) blocked.1]

/-- The program over a larger interface. -/
def embed {Op' : Type} {Answer' : Op' → Type} (f : Op → Op')
    (back : ∀ o, Answer' (f o) → Answer o) : Program Answer α → Program Answer' α
  | .pure value => .pure value
  | .throw => .throw
  | .op o next => .op (f o) fun answer => (next (back o answer)).embed f back

/-- **A path through a program over a larger interface** is one of the program's own. -/
theorem Path.of_embed {Op' : Type} {Answer' : Op' → Type} {f : Op → Op'}
    {back : ∀ o, Answer' (f o) → Answer o}
    (answers : ∀ o, IsEmpty (Answer' (f o)) → IsEmpty (Answer o)) {c : Program Answer α} :
    ∀ {steps : List (Σ o, Answer' o)}, Path (c.embed f back) steps →
      ∃ own, Path c own ∧ steps.map Sigma.fst = own.map fun step => f step.1 := by
  induction c with
  | pure value =>
    intro steps path
    exact ⟨[], .pure value, congrArg _ (path_pure.mp path)⟩
  | throw =>
    intro steps path
    exact ⟨[], .throw, congrArg _ (path_throw.mp path)⟩
  | op o next ih =>
    intro steps path
    rcases path_op.mp path with ⟨never, rfl⟩ | ⟨answer, rest, later, rfl⟩
    · exact ⟨[], .blocked o next (answers o never), rfl⟩
    · obtain ⟨own, later, same⟩ := ih _ later
      exact ⟨⟨o, back o answer⟩ :: own, .op o next _ own later, congrArg _ same⟩

end Program

/-! ### Protocols on questions -/

/-- A protocol on questions with phases `Φ`. -/
structure Typestate {Op : Type} (Answer : Op → Type) (Φ : Type) where
  /-- The question may be asked in this phase. -/
  may : Φ → Op → Prop
  /-- The answer can come in this phase. -/
  expects : Φ → (o : Op) → Answer o → Prop
  /-- The phase after the answer. -/
  after : Φ → (o : Op) → Answer o → Φ

/-- A protocol without phases: which questions are asked, and which answers come. -/
def Typestate.stateless {Op : Type} {Answer : Op → Type} (may : Op → Prop)
    (expects : (o : Op) → Answer o → Prop) : Typestate Answer Unit where
  may _ := may
  expects _ := expects
  after _ _ _ := ()

/-- **A program by itself**: the phase is the state, every question is answered from it, and nothing
else changes it. -/
def Typestate.alone {Op σ : Type} {Answer : Op → Type}
    (perform : (o : Op) → σ → Option (Answer o × σ)) : Typestate Answer σ where
  may s o := (perform o s).isSome = true
  expects s o answer := ∃ s', perform o s = some (answer, s')
  after s o _ := ((perform o s).map Prod.snd).getD s

theorem Typestate.alone_after {Op σ : Type} {Answer : Op → Type}
    {perform : (o : Op) → σ → Option (Answer o × σ)} {s s' : σ} {o : Op} {answer given : Answer o}
    (performed : perform o s = some (answer, s')) : (alone perform).after s o given = s' := by
  simp only [alone, performed, Option.map_some, Option.getD_some]

section Follows

variable {Op : Type} {Answer : Op → Type} {Φ α β : Type}

/-- **Along every admitted path `c` keeps to the protocol**, and ends in a phase of `final`. -/
def Follows (T : Typestate Answer Φ) (final : Φ → Prop) : Φ → Program Answer α → Prop
  | φ, .pure _ => final φ
  | _, .throw => True
  | φ, .op o next => T.may φ o ∧ ∀ answer, T.expects φ o answer →
      Follows T final (T.after φ o answer) (next answer)

/-- **Along every admitted path `c` keeps to the protocol**, and ends in a phase of `final`, or by
an exception in a phase of `thrown`. -/
def Adheres (T : Typestate Answer Φ) (thrown final : Φ → Prop) : Φ → Program Answer α → Prop
  | φ, .pure _ => final φ
  | φ, .throw => thrown φ
  | φ, .op o next => T.may φ o ∧ ∀ answer, T.expects φ o answer →
      Adheres T thrown final (T.after φ o answer) (next answer)

variable {T : Typestate Answer Φ} {thrown mid final : Φ → Prop} {φ : Φ}

/-- To follow a protocol is to adhere to it with any exception allowed. -/
theorem adheres_iff_follows {c : Program Answer α} :
    Adheres T (fun _ => True) final φ c ↔ Follows T final φ c := by
  induction c generalizing φ with
  | pure value => rfl
  | throw => rfl
  | op o next ih =>
    exact and_congr_right fun _ => forall_congr' fun answer => imp_congr_right fun _ => ih answer

/-- **After an answer** the rest adheres from the phase the answer leads to. -/
theorem Adheres.answered {o : Op} {next : Answer o → Program Answer α} {answer : Answer o}
    (adheres : Adheres T thrown final φ (.op o next)) (expected : T.expects φ o answer)
    {phase : Φ} (moved : T.after φ o answer = phase) :
    Adheres T thrown final phase (next answer) := by
  rw [← moved]
  exact adheres.2 answer expected

/-- **A question asked alone** has one answer. -/
theorem Adheres.alone_op {σ : Type} {perform : (o : Op) → σ → Option (Answer o × σ)}
    {thrown final : σ → Prop} {s s' : σ} {o : Op} {next : Answer o → Program Answer α}
    {answer : Answer o} (performed : perform o s = some (answer, s'))
    (rest : Adheres (.alone perform) thrown final s' (next answer)) :
    Adheres (.alone perform) thrown final s (.op o next) := by
  refine ⟨Option.isSome_iff_exists.mpr ⟨_, performed⟩, fun given ⟨after, expected⟩ => ?_⟩
  rw [Typestate.alone_after performed]
  cases performed.symm.trans expected
  exact rest

/-- **Sequencing**: a part ending in `mid`, followed by a rest that starts from any such phase. -/
theorem Adheres.bind {c : Program Answer α} {f : α → Program Answer β}
    (first : Adheres T thrown mid φ c)
    (rest : ∀ value phase, mid phase → Adheres T thrown final phase (f value)) :
    Adheres T thrown final φ (c.bind f) := by
  induction c generalizing φ with
  | pure value => exact rest value φ first
  | throw => exact first
  | op o next ih => exact ⟨first.1, fun answer expected => ih answer (first.2 answer expected)⟩

/-- **Loops**: every round starts and ends in `mid`. -/
theorem Adheres.forEach {xs : List β} {f : β → Program Answer Unit}
    (round : ∀ x ∈ xs, ∀ phase, mid phase → Adheres T thrown mid phase (f x)) (start : mid φ) :
    Adheres T thrown mid φ (Program.forEach xs f) := by
  induction xs generalizing φ with
  | nil => exact start
  | cons x rest ih =>
    exact (round x List.mem_cons_self φ start).bind fun _ phase inside =>
      ih (fun y member => round y (List.mem_cons_of_mem _ member)) inside

theorem Adheres.weaken {thrown' : Φ → Prop} {c : Program Answer α}
    (adheres : Adheres T thrown mid φ c) (throws : ∀ phase, thrown phase → thrown' phase)
    (ends : ∀ phase, mid phase → final phase) : Adheres T thrown' final φ c := by
  induction c generalizing φ with
  | pure value => exact ends φ adheres
  | throw => exact throws φ adheres
  | op o next ih =>
    exact ⟨adheres.1, fun answer expected => ih answer (adheres.2 answer expected)⟩

theorem Adheres.mono {c : Program Answer α} (adheres : Adheres T thrown mid φ c)
    (weaker : ∀ phase, mid phase → final phase) : Adheres T thrown final φ c :=
  adheres.weaken (fun _ => id) weaker

/-- **A program that adheres to one protocol adheres to another**, from related phases, whose
answers the first expects and whose questions it allows. -/
theorem Adheres.transfer {Ψ : Type} {T' : Typestate Answer Ψ} {related : Φ → Ψ → Prop}
    {c : Program Answer α} {ψ : Ψ} (adheres : Adheres T thrown final φ c) (start : related φ ψ)
    (may : ∀ φ ψ o, related φ ψ → T.may φ o → T'.may ψ o)
    (answer : ∀ φ ψ o answer, related φ ψ → T.may φ o → T'.expects ψ o answer →
      T.expects φ o answer ∧ related (T.after φ o answer) (T'.after ψ o answer)) :
    Adheres T' (fun _ => True) (fun _ => True) ψ c := by
  induction c generalizing φ ψ with
  | pure value => trivial
  | throw => trivial
  | op o next ih =>
    refine ⟨may φ ψ o start adheres.1, fun given expected => ?_⟩
    obtain ⟨expects, after⟩ := answer φ ψ o given start adheres.1 expected
    exact ih given (adheres.2 given expects) after

/-- **Loops whose rounds differ**: `left rest` holds where the rounds of `rest` are left. -/
theorem Adheres.forEach_left {left : List β → Φ → Prop} {xs : List β}
    {f : β → Program Answer Unit}
    (round : ∀ x rest phase, left (x :: rest) phase → Adheres T thrown (left rest) phase (f x))
    (start : left xs φ) : Adheres T thrown (left []) φ (Program.forEach xs f) := by
  induction xs generalizing φ with
  | nil => exact start
  | cons x rest ih => exact (round x rest φ start).bind fun _ phase inside => ih inside

theorem Follows.mono {c : Program Answer α} (follows : Follows T mid φ c)
    (weaker : ∀ phase, mid phase → final phase) : Follows T final φ c := by
  induction c generalizing φ with
  | pure value => exact weaker φ follows
  | throw => trivial
  | op o next ih =>
    exact ⟨follows.1, fun answer expected => ih answer (follows.2 answer expected)⟩

/-- **A protocol without phases that expects every answer** says what is asked along any path. -/
theorem Follows.of_occurs {may : Op → Prop} {c : Program Answer α} {o : Op} {final : Unit → Prop}
    (follows : Follows (.stateless may fun _ _ => True) final () c)
    (occurs : Program.Occurs o c) : may o := by
  induction occurs with
  | here next => exact follows.1
  | later first next answer _ ih => exact ih (follows.2 answer trivial)

end Follows

end Wookie.Library
