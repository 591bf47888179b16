import CardScript.Failure

/-!
# Edits

An edit changes something step by step and may fail on the way. What it has changed by then stays
changed: an edit that is to change nothing when it fails makes all its checks before its first
change.
-/

namespace CardScript

abbrev Editing (σ : Type) := EStateM Failure σ

namespace Editing

variable {σ τ α : Type}

def ofExcept : Except Failure α → Editing σ α
  | .ok a => pure a
  | .error f => throw f

/-- Reads something off that may not be there. -/
def demand (read : σ → Except Failure α) : Editing σ α := do
  ofExcept (read (← get))

/-- Edits a component, which is put back as the edit leaves it, however that ends. -/
def within (component : σ → τ) (put : τ → σ → σ) (x : Editing τ α) : Editing σ α := fun s =>
  match x (component s) with
  | .ok a t => .ok a (put t s)
  | .error f t => .error f (put t s)

/-- What an edit answers and leaves, unless it fails. -/
def outcome (x : Editing σ α) (s : σ) : Except Failure (α × σ) :=
  match x s with
  | .ok a t => .ok (a, t)
  | .error f _ => .error f

/-- What an edit leaves, unless it fails. -/
def result (x : Editing σ Unit) (s : σ) : Except Failure σ :=
  match x s with
  | .ok _ t => .ok t
  | .error f _ => .error f

end Editing

end CardScript
