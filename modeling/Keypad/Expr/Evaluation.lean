import Keypad.Expr.Basic
import Keypad.Arithmetic

/-! # Evaluation of expressions

The value of an expression in a given arithmetic. Evaluation is strict and goes from left to right,
operands before their operator; the first part that has no value decides the error. -/

namespace Keypad

namespace Expr

variable {V : Type} [Arithmetic V]

mutual

/-- The **value** of an expression. -/
def eval : Expr V → Except (EvalError V) V
  | .leaf n => n.value.mapError .numeral
  | .number n => n.value.mapError .numeral
  | .group factors => evalProduct Arithmetic.one factors
  | .binary op lhs rhs => do Arithmetic.binary op (← eval lhs) (← eval rhs)
  | .leading op rhs => do Arithmetic.leading op (← eval rhs)
  | .trailing op lhs => do Arithmetic.trailing op (← eval lhs)
  | .apply f arg => do return Arithmetic.function f (← eval arg)

/-- Multiplies the values of some factors, one after the other, onto a product. -/
def evalProduct (product : V) : List (Expr V) → Except (EvalError V) V
  | [] => .ok product
  | e :: es => do evalProduct (Arithmetic.multiply product (← eval e)) es

end

end Expr

end Keypad
