import ScriptLint.Event

/-! Operations on a state.

A `Step` is what one operation gives back, the state it leaves behind and the
events it causes; `Step.trace` strings operations together. -/

namespace ScriptLint

structure Step (σ α : Type) where
  result : α
  state : σ
  events : List Event

namespace Step

/-- Changes what is given back. -/
def map {σ α β : Type} (f : α → β) (s : Step σ α) : Step σ β :=
  ⟨f s.result, s.state, s.events⟩

/-- Puts the state into a larger one. -/
def within {σ τ α : Type} (f : σ → τ) (s : Step σ α) : Step τ α :=
  ⟨s.result, f s.state, s.events⟩

/-- Puts earlier events in front. -/
def after {σ α : Type} (events : List Event) (s : Step σ α) : Step σ α :=
  { s with events := events ++ s.events }

/-- The steps of a list of requests, each from the state that the one before left behind. -/
def trace {σ ι α : Type} (f : σ → ι → Step σ α) (s : σ) : List ι → List (Step σ α)
  | [] => []
  | i :: rest => f s i :: trace f (f s i).state rest

end Step

end ScriptLint
