import Keypad.Parser.Input

/-! # Failures of parsers

A failure says why a parser stopped and what was left of the input. Of two failures the one that
got **further** is worth reporting. Exceeding a nesting limit is the one failure that no alternative
recovers from. -/

namespace Keypad

/-- Why a parser stopped. -/
inductive FailureKind (τ : Type) where
  /-- The input ended where an item was expected. -/
  | exhausted
  /-- The front item is not of the expected kind. -/
  | mismatch (item : τ)
  /-- The front item is of the expected kind, but not one of those wanted. -/
  | rejected (item : τ)
  /-- The parser succeeded without reading the whole input. -/
  | leftover
  /-- Too many nested parsers were at work. -/
  | tooDeep
  deriving DecidableEq, Repr

namespace FailureKind

variable {τ : Type}

/-- A **fatal** failure is never recovered from. -/
def isFatal : FailureKind τ → Bool
  | .tooDeep => true
  | _ => false

/-- The item at which the parser stopped, if it stopped at one. -/
def item? : FailureKind τ → Option τ
  | .mismatch t => some t
  | .rejected t => some t
  | _ => none

/-- Only too deep a nesting is fatal. -/
theorem isFatal_iff (k : FailureKind τ) : k.isFatal = true ↔ k = .tooDeep := by
  cases k <;> simp [isFatal]

end FailureKind

/-- A **failure**: its kind, and the input that was left when it happened. -/
structure Failure (I τ : Type) where
  kind : FailureKind τ
  rest : I
  deriving DecidableEq, Repr

namespace Failure

variable {I τ : Type} [Input I τ]

/-- Of two failures the one that left less input; the first on a tie. A fatal failure wins over any
other. -/
def further (left right : Failure I τ) : Failure I τ :=
  if left.kind.isFatal then left
  else if right.kind.isFatal || Input.remaining right.rest < Input.remaining left.rest then right
  else left

/-- Of two failures one is reported as it is; they are never mixed. -/
theorem further_eq_or (left right : Failure I τ) :
    left.further right = left ∨ left.further right = right := by
  unfold further
  split
  · exact .inl rfl
  · split
    · exact .inr rfl
    · exact .inl rfl

/-- A failure got as far as itself. -/
@[simp] theorem further_self (e : Failure I τ) : e.further e = e := by
  simp [further]

end Failure

end Keypad
