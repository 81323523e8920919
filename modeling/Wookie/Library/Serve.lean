/-
**A program with a server to itself.**

* `Server` — surroundings that answer every question, and remember.
* `Program.serve` — the run of a program that nobody else interferes with: what it returns, or
  `none` for an exception, and what the server remembers.
* `Server.typestate` — the protocol that expects the server's answers and nothing else.
  `Adheres.serve` reads the outcome of the run off that protocol, so that its rules for sequences
  and loops are the rules for runs.
-/

import Wookie.Library.Program

namespace Wookie.Library

variable {Op : Type} {Answer : Op → Type} {σ α β : Type}

/-- Surroundings that answer every question. -/
abbrev Server (Answer : Op → Type) (σ : Type) := (o : Op) → σ → Answer o × σ

/-- The run of a program. -/
def Program.serve (server : Server Answer σ) : Program Answer α → σ → Option α × σ
  | .pure value, s => (some value, s)
  | .throw, s => (none, s)
  | .op o next, s => (next (server o s).1).serve server (server o s).2

/-- The server's answers, as a protocol: what it remembers is the phase. -/
def Server.typestate (server : Server Answer σ) : Typestate Answer σ where
  may _ _ := True
  expects s o answer := answer = (server o s).1
  after s o _ := (server o s).2

variable {server : Server Answer σ} {thrown final : σ → Prop} {s : σ}

/-- A question is answered by the server. -/
theorem adheres_op {o : Op} {next : Answer o → Program Answer α}
    (rest : Adheres server.typestate thrown final (server o s).2 (next (server o s).1)) :
    Adheres server.typestate thrown final s (.op o next) := by
  refine ⟨trivial, ?_⟩
  rintro _ rfl
  exact rest

/-- **The outcome of a run**, from the protocol it keeps to. -/
theorem Adheres.serve {c : Program Answer α} (adheres : Adheres server.typestate thrown final s c) :
    ((c.serve server s).1.isSome = true ∧ final (c.serve server s).2) ∨
      ((c.serve server s).1 = none ∧ thrown (c.serve server s).2) := by
  induction c generalizing s with
  | pure value => exact .inl ⟨rfl, adheres⟩
  | throw => exact .inr ⟨rfl, adheres⟩
  | op o next ih => exact ih _ (adheres.2 _ rfl)

end Wookie.Library
