import Keypad.Expr.Evaluation
import Keypad.Grammar
import Keypad.Lexeme

/-! # Calculations

From keys to a value: the keys are parsed, and the expression is evaluated. Each stage has errors of
its own. A parse error quotes the keys just before the place where parsing stopped, which is the
front of what was left, because parsing goes from the last key to the first. The **journal** of a
calculation tells what happened at each stage. -/

namespace Keypad

/-- Why keys could not be parsed. -/
inductive ParseError where
  /-- There are no keys. -/
  | empty
  /-- Parsing stopped; the text shows the keys next to that place. -/
  | unexpected (near : String)
  deriving DecidableEq, Repr

/-- Why a calculation has no value. -/
inductive CalcError (V : Type) where
  /-- The text could not be read as keys. -/
  | reading (e : ReadError)
  /-- The keys could not be parsed. -/
  | parsing (e : ParseError)
  /-- The expression has no value. -/
  | evaluation (e : EvalError V)
  deriving DecidableEq, Repr

/-- The wording of a parse error. -/
def ParseError.message : ParseError → String
  | .empty => "Nothing to calculate"
  | .unexpected near => "Unexpected token near '" ++ near ++ "'"

/-- The wording of an error. -/
def CalcError.message {V : Type} [ToString V] : CalcError V → String
  | .reading e => "Failed to read expression: " ++ e.message
  | .parsing e => e.message
  | .evaluation e => e.message

section Parsing

variable {V : Type}

/-- The number of keys that a parse error quotes. -/
def quotedKeys : Nat := 3

/-- The keys that a parse error quotes, from the keys left over, last one first. When none is left,
the first keys of all are quoted. -/
def nearKeys (keys left : List (Key V)) : List (Key V) :=
  if left.isEmpty then keys.take quotedKeys else (left.take quotedKeys).reverse

/-- The error for a failure of the grammar. -/
def ParseError.ofFailure (keys : List (Key V)) (e : Failure (Stream (Key V)) (Key V)) :
    ParseError :=
  .unexpected (Key.textOf (nearKeys keys e.rest.items))

/-- **Parses** a sequence of keys. -/
def Expr.ofKeys (keys : List (Key V)) : Except ParseError (Expr V) :=
  if keys.isEmpty then .error .empty else (Grammar.parse keys).mapError (.ofFailure keys)

/-- The **description** of a sequence of keys: how they were understood. -/
def describe (keys : List (Key V)) : Except ParseError String :=
  (Expr.ofKeys keys).map Expr.describe

end Parsing

section Evaluation

variable {V : Type} [Arithmetic V]

/-- **Calculates** the value of a sequence of keys. -/
def calculate (keys : List (Key V)) : Except (CalcError V) V :=
  match Expr.ofKeys keys with
  | .error e => .error (.parsing e)
  | .ok e => e.eval.mapError .evaluation

end Evaluation

/-! ## The journal -/

/-- How much detail an entry of the journal is. -/
inductive Level where
  | debug
  | trace
  deriving DecidableEq, Repr

/-- An **entry** of the journal. -/
inductive Event (V : Type) where
  /-- A text was read as these keys. -/
  | read (keys : List (Key V))
  /-- A calculation begins. -/
  | calculating (keys : List (Key V))
  /-- Parsing failed for this reason, with so many keys left. -/
  | stopped (kind : FailureKind (Key V)) (left : Nat)
  /-- Parsing succeeded. -/
  | parsed (e : Expr V)
  /-- The calculation has a value. -/
  | result (value : V)

namespace Event

variable {V : Type}

/-- The level of detail of an entry. -/
def level : Event V → Level
  | .calculating _ | .result _ | .stopped .tooDeep _ => .debug
  | _ => .trace

/-- The wording of an entry. -/
def message [ToString V] : Event V → String
  | .read keys => "tokens: " ++ Key.textOf keys
  | .calculating keys => "calculating " ++ Key.textOf keys
  | .stopped .exhausted _ => "input ended early"
  | .stopped (.mismatch k) _ | .stopped (.rejected k) _ => "stopped at " ++ k.text
  | .stopped .leftover left => left.repr ++ " tokens left"
  | .stopped .tooDeep _ =>
    "expression is nested deeper than " ++ Grammar.maxNesting.repr ++ " levels"
  | .parsed e => "parsed as " ++ e.describe
  | .result v => "result " ++ toString v

end Event

/-- The **journal** of a calculation, its first entry first. No reason is noted when there are no
keys. -/
def journal {V : Type} [Arithmetic V] (keys : List (Key V)) : List (Event V) :=
  .calculating keys ::
    if keys.isEmpty then []
    else
      match Grammar.parse keys with
      | .error e => [.stopped e.kind e.rest.items.length]
      | .ok e =>
        .parsed e ::
          match e.eval with
          | .error _ => []
          | .ok v => [.result v]

end Keypad
