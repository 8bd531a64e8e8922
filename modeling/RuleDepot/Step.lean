import RuleDepot.Failure
import RuleDepot.Files.Action
/-!
Steps of a generation pass.  A step works on one part of the pass and on the files; it either
gives a value or fails, and what it did to the part and to the files before it failed stays done.
-/

namespace RuleDepot

/-- A step that works on a part `σ` and on the files. -/
abbrev Step (σ : Type) : Type → Type :=
  EStateM BuildError (σ × Tree)

namespace Step

variable {σ τ α : Type}

/-- The part that the step works on. -/
def part : Step σ σ := do
  return (← get).1

/-- The files as they are. -/
def tree : Step σ Tree := do
  return (← get).2

/-- Changes the part. -/
def change (f : σ → σ) : Step σ Unit :=
  modify fun (s, t) => (f s, t)

/-- An action on the files, whose failure is put into the words of the caller. -/
def files (wrap : IoError → BuildError) (action : FileM α) : Step σ α := fun (s, t) =>
  match action t with
  | .ok a t => .ok a (s, t)
  | .error e t => .error (wrap e) (s, t)

/-- A result that needs no state, or a failure. -/
def ofExcept : Except BuildError α → Step σ α
  | .ok a => pure a
  | .error e => throw e

/-- Goes on after a failure, which becomes the result. -/
def attempt (step : Step σ α) : Step σ (Except BuildError α) := fun s =>
  match step s with
  | .ok a s => .ok (.ok a) s
  | .error e s => .ok (.error e) s

/-- A step on a part of a larger part. -/
def within (look : τ → σ) (put : σ → τ → τ) (step : Step σ α) : Step τ α := fun (outer, t) =>
  match step (look outer, t) with
  | .ok a (s, t) => .ok a (put s outer, t)
  | .error e (s, t) => .error e (put s outer, t)

end Step

end RuleDepot
