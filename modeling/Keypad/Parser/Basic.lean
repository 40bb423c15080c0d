import Keypad.Parser.Failure

/-! # Parsers

A **parser** is described as a term: the ways of building parsers are its constructors, and what a
parser does is its run on an input. A parser may call **rules** by name, which is how recursive
grammars are written; the rules themselves are given only when the parser runs.

Parsing is deterministic and backtracks: an alternative that fails leaves the input as it was. When
all alternatives fail, the failure that got further is reported. -/

namespace Keypad

/-- What a run gives: an output with the input after it, or a failure. -/
abbrev Outcome (I τ α : Type) := Except (Failure I τ) (α × I)

/-- **Parsers** on inputs `I` of items `τ`, calling rules named by `ρ` whose output is `ω`. -/
inductive Parser (I τ ρ ω : Type) : Type → Type 1 where
  /-- Succeeds with a value and reads nothing. -/
  | pure {α : Type} (value : α) : Parser I τ ρ ω α
  /-- Fails as if the input had ended. -/
  | fail {α : Type} : Parser I τ ρ ω α
  /-- Reads one item whose view exists and is accepted. -/
  | satisfy {α : Type} (view : τ → Option α) (accepts : α → Bool) : Parser I τ ρ ω α
  /-- Changes the output. -/
  | map {α β : Type} (f : α → β) (p : Parser I τ ρ ω α) : Parser I τ ρ ω β
  /-- Goes on after the first parser with a parser chosen by its output. -/
  | bind {α β : Type} (p : Parser I τ ρ ω α) (f : α → Parser I τ ρ ω β) : Parser I τ ρ ω β
  /-- Changes the failure. -/
  | mapError {α : Type} (f : Failure I τ → Failure I τ) (p : Parser I τ ρ ω α) :
      Parser I τ ρ ω α
  /-- After a failure that is not fatal, starts again on the same input with a parser chosen by
  the failure. -/
  | recover {α : Type} (p : Parser I τ ρ ω α) (f : Failure I τ → Parser I τ ρ ω α) :
      Parser I τ ρ ω α
  /-- Repeats as often as possible, and at least once unless `allowEmpty`. -/
  | many {α : Type} (p : Parser I τ ρ ω α) (allowEmpty : Bool) : Parser I τ ρ ω (List α)
  /-- Runs a rule. -/
  | call (rule : ρ) : Parser I τ ρ ω ω
  /-- Runs a rule one level deeper; fatal when `limit` levels are already in use. -/
  | nested (limit : Nat) (rule : ρ) : Parser I τ ρ ω ω

namespace Parser

variable {I τ ρ ω α β : Type}

/-- Reads one item that has a view. -/
def item (view : τ → Option α) : Parser I τ ρ ω α := .satisfy view fun _ => true

/-- **Alternation**: the second parser is tried where the first fails; when both fail, the failure
that got further is reported. -/
def orElse [Input I τ] (p q : Parser I τ ρ ω α) : Parser I τ ρ ω α :=
  .recover p fun left => .mapError left.further q

/-! ## Running a parser -/

section Run

variable [Input I τ]

/-- Reads one item whose view exists and is accepted. -/
def take (view : τ → Option α) (accepts : α → Bool) (input : I) : Outcome I τ α :=
  match Input.next? input with
  | none => .error ⟨.exhausted, input⟩
  | some (t, rest) =>
    match view t with
    | none => .error ⟨.mismatch t, input⟩
    | some a => if accepts a then .ok (a, rest) else .error ⟨.rejected t, input⟩

/-- Repeats a step. Every success is kept; a step that reads nothing is the last one. A fatal
failure is passed on, and so is a failure of the first step unless `allowEmpty`. -/
def iterate (step : I → Option (Outcome I τ α)) (allowEmpty : Bool) (input : I) :
    Option (Outcome I τ (List α)) :=
  match step input with
  | none => none
  | some (.error e) =>
    if e.kind.isFatal || !allowEmpty then some (.error e) else some (.ok ([], input))
  | some (.ok (a, rest)) =>
    -- without progress the next step would do the same again
    if Input.remaining rest < Input.remaining input then
      (iterate step true rest).map (·.map fun (as, rest') => (a :: as, rest'))
    else some (.ok ([a], rest))
termination_by Input.remaining input

/-- The **run** of a parser, given the runs of the rules it calls. There is no result exactly when
a rule that is called has none. -/
def run (rule : ρ → I → Option (Outcome I τ ω)) {α : Type} :
    Parser I τ ρ ω α → I → Option (Outcome I τ α)
  | .pure a, input => some (.ok (a, input))
  | .fail, input => some (.error ⟨.exhausted, input⟩)
  | .satisfy view accepts, input => some (take view accepts input)
  | .map f p, input => (run rule p input).map (·.map fun (a, rest) => (f a, rest))
  | .bind p f, input =>
    match run rule p input with
    | some (.ok (a, rest)) => run rule (f a) rest
    | some (.error e) => some (.error e)
    | none => none
  | .mapError f p, input => (run rule p input).map (·.mapError f)
  | .recover p f, input =>
    match run rule p input with
    | some (.error e) => if e.kind.isFatal then some (.error e) else run rule (f e) input
    | result => result
  | .many p allowEmpty, input => iterate (run rule p) allowEmpty input
  | .call r, input => rule r input
  | .nested limit r, input =>
    if limit ≤ Input.depth input then some (.error ⟨.tooDeep, input⟩)
    else
      (rule r (Input.atDepth input (Input.depth input + 1))).map
        (·.map fun (a, rest) => (a, Input.atDepth rest (Input.depth input)))

/-- An alternation runs the second parser on the same input, unless the first succeeds or fails
fatally; the failure that got further is reported. -/
theorem run_orElse (rule : ρ → I → Option (Outcome I τ ω)) {α : Type} (p q : Parser I τ ρ ω α)
    (input : I) :
    run rule (p.orElse q) input =
      match run rule p input with
      | some (.error e) =>
        if e.kind.isFatal then some (.error e)
        else (run rule q input).map (·.mapError e.further)
      | result => result := by
  simp only [orElse, run]

/-- The run of a rule when rules may call each other `fuel` deep; there is no result if that is not
enough. -/
def runRule (rules : ρ → Parser I τ ρ ω ω) : Nat → ρ → I → Option (Outcome I τ ω)
  | 0 => fun _ _ => none
  | fuel + 1 => fun r input => run (runRule rules fuel) (rules r) input

/-- The run of a parser when rules may call each other `fuel` deep. -/
def runFor (rules : ρ → Parser I τ ρ ω ω) (fuel : Nat) (p : Parser I τ ρ ω α) (input : I) :
    Option (Outcome I τ α) :=
  run (runRule rules fuel) p input

/-- Requires that a run has read the whole input. -/
def complete : Outcome I τ α → Except (Failure I τ) α
  | .error e => .error e
  | .ok (a, rest) => if Input.remaining rest = 0 then .ok a else .error ⟨.leftover, rest⟩

end Run

end Parser

end Keypad
