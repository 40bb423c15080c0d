import Keypad.Expr.Basic
import Keypad.Parser.Nesting

/-! # The grammar of key sequences

Keys are parsed **from the last one to the first**. Binary operators are left associative, so that
`8−3−2` is `(8−3)−2`; the rule for that, an expression followed by an operator and an operand, is
left recursive in typing order and right recursive when read backwards. Read this way, the operand
that comes first is the right one, a trailing operator comes before its operand, and a function
name comes after the brackets of its argument.

At each tier an operand of the next tier is read, and then a binary operator and a further
expression of this tier, or a leading operator, or nothing. Where that fails, a trailing operator
and an expression are tried. At the tightest tier the operand is one or more factors. Every
expression inside another one counts as a level of nesting, and the levels are limited. -/

namespace Keypad

namespace Grammar

variable {V : Type}

/-- Parsers of keys, whose rules are the tiers. -/
abbrev KeyParser (V α : Type) := Parser (Stream (Key V)) (Key V) Tier (Expr V) α

/-- Expressions that may be open inside each other. -/
def maxNesting : Nat := 256

/-! ## Single keys -/

/-- A binary operator of a tier. -/
def binary (tier : Tier) : KeyParser V BinaryOp :=
  .satisfy Key.binary? fun op => decide (op.tier = tier)

/-- A leading operator of a tier. -/
def leading (tier : Tier) : KeyParser V PrefixOp :=
  .satisfy Key.leading? fun op => decide (op.tier = tier)

/-- A trailing operator of a tier. -/
def trailing (tier : Tier) : KeyParser V PostfixOp :=
  .satisfy Key.trailing? fun op => decide (op.tier = tier)

/-- A function name. -/
def function : KeyParser V Function := .item Key.function?

/-- A constant. -/
def constant : KeyParser V (Expr V) := .map .leaf (.satisfy Key.numeric? Numeric.isConstant)

/-! ## Factors -/

/-- The expression of some digits and points in typing order. A single key is a leaf, so that a
bare point has no value. -/
def numeralOf : List (Numeric V) → Expr V
  | [n] => .leaf n
  | ns => .number (ns.map fun n => match n with | .digit d => some d | _ => none)

/-- A run of digits and points. -/
def numeral : KeyParser V (Expr V) :=
  .map (fun keys => numeralOf keys.reverse)
    (.many (.satisfy Key.numeric? Numeric.isNumeral) false)

/-- An expression in brackets, or a function of one. -/
def bracketed (inner : KeyParser V (Expr V)) : KeyParser V (Expr V) :=
  .bind (.item Key.closing?) fun _ =>
    .bind inner fun arg =>
      .bind (.item Key.opening?) fun _ =>
        .orElse (.map (fun f => .apply f arg) function) (.pure arg)

/-- A single factor. -/
def factor (inner : KeyParser V (Expr V)) : KeyParser V (Expr V) :=
  .orElse (.orElse (bracketed inner) numeral) constant

/-- One or more factors next to each other. -/
def factors (inner : KeyParser V (Expr V)) : KeyParser V (Expr V) :=
  .map (fun es => .group es.reverse) (.many (factor inner) false)

/-! ## Expressions -/

/-- The operand of a tier. Expressions inside it are parsed by `reenter`. -/
def operand (reenter : Tier → KeyParser V (Expr V)) (tier : Tier) : KeyParser V (Expr V) :=
  match tier.higher? with
  | some higher => reenter higher
  | none => factors (reenter .low)

/-- What may stand before an operand in typing order. -/
def before (reenter : Tier → KeyParser V (Expr V)) (tier : Tier) (rhs : Expr V) :
    KeyParser V (Expr V) :=
  .orElse
    (.orElse
      (.bind (binary tier) fun op => .map (fun lhs => .binary op lhs rhs) (reenter tier))
      (.map (fun op => .leading op rhs) (leading tier)))
    (.pure rhs)

/-- An **expression** whose loosest operator is of the given tier. Expressions inside it are
parsed by `reenter`. -/
def rule (reenter : Tier → KeyParser V (Expr V)) (tier : Tier) : KeyParser V (Expr V) :=
  .orElse
    (.bind (operand reenter tier) (before reenter tier))
    (.bind (trailing tier) fun op => .map (fun lhs => .trailing op lhs) (reenter tier))

/-- The grammar with limited nesting. -/
def capped : Tier → KeyParser V (Expr V) := rule (.nested maxNesting)

/-- The grammar without a limit. -/
def uncapped : Tier → KeyParser V (Expr V) := rule .call

/-- No rule of the grammar calls another one but nested, so none goes beyond the limit. -/
theorem capped_cappedBy (tier : Tier) : (capped (V := V) tier).CappedBy maxNesting := by
  cases tier <;>
    simp [capped, rule, operand, before, factors, factor, bracketed, numeral, constant, function,
      binary, leading, trailing, Tier.higher?, Parser.orElse, Parser.item, Parser.CappedBy]

/-! ## Running the grammar -/

/-- Parses an expression of a tier at the front of a stream. -/
def expression (tier : Tier) (input : Stream (Key V)) :
    Outcome (Stream (Key V)) (Key V) (Expr V) :=
  (Parser.runFor capped maxNesting (capped tier) input).get
    (Parser.runFor_settled capped_cappedBy (capped tier) (capped_cappedBy tier) input).isSome

/-- Calls as deep as the nesting limit are enough for the capped grammar. -/
theorem runFor_capped (tier : Tier) (input : Stream (Key V)) :
    Parser.runFor capped maxNesting (capped tier) input = some (expression tier input) :=
  (Option.some_get _).symm

/-- An expression that was parsed gives back the depth at which it began. -/
theorem expression_depth {tier : Tier} {input rest : Stream (Key V)} {e : Expr V}
    (h : expression tier input = .ok (e, rest)) : rest.depth = input.depth := by
  obtain ⟨o, ho, hd⟩ :=
    Parser.runFor_settled capped_cappedBy (capped tier) (capped_cappedBy tier) input
  rw [runFor_capped] at ho
  exact hd e rest (by rw [← Option.some.inj ho, h])

/-- The stream that the grammar reads: the keys from the last to the first. -/
def reversed (keys : List (Key V)) : Stream (Key V) := { items := keys.reverse }

/-- Parses a whole sequence of keys as an expression of the loosest tier. -/
def parse (keys : List (Key V)) : Except (Failure (Stream (Key V)) (Key V)) (Expr V) :=
  Parser.complete (expression .low (reversed keys))

end Grammar

end Keypad
