import Keypad.Key.Spelling
import Keypad.Numeral

/-! # Arithmetic of a calculator

What a calculator needs to know about its values: the constants, numbers spelled by digits, the
implicit product, and what each operation and function does. Operations may refuse their operands;
an **evaluation error** says why. Functions are total. -/

namespace Keypad

/-- Why an expression has no value. -/
inductive EvalError (V : Type) where
  /-- A numeral has no value. -/
  | numeral (e : NumeralError)
  /-- A factorial of a number that is not real. -/
  | complexFactorial (operand : V)
  /-- A root whose index is not a whole real number. -/
  | rootIndex (index radicand : V)
  /-- A remainder of numbers that are not both real. -/
  | complexModulo (dividend divisor : V)
  deriving DecidableEq, Repr

/-- The wording of an evaluation error; operands are quoted in brackets. -/
def EvalError.message {V : Type} [ToString V] : EvalError V → String
  | .numeral e => e.message
  | .complexFactorial v => "Factorial requires a real operand: (" ++ toString v ++ ")!"
  | .rootIndex n v =>
    "Root index must be a whole real number: (" ++ toString n ++ ")√(" ++ toString v ++ ")"
  | .complexModulo v w =>
    "Modulo requires real operands: (" ++ toString v ++ ") mod (" ++ toString w ++ ")"

/-- The **arithmetic** of a type of values. -/
class Arithmetic (V : Type) where
  /-- Zero, which is the answer before the first calculation. -/
  zero : V
  /-- One, which is the product of no factors. -/
  one : V
  /-- The number spelled by digits before and after a point. -/
  decimal (whole fraction : List Nat) : V
  /-- The constant `π`. -/
  pi : V
  /-- The base of the natural logarithm. -/
  e : V
  /-- The imaginary unit. -/
  i : V
  /-- The product of factors written next to each other. -/
  multiply : V → V → V
  /-- What a binary operation does. -/
  binary : BinaryOp → V → V → Except (EvalError V) V
  /-- What a leading operation does. -/
  leading : PrefixOp → V → Except (EvalError V) V
  /-- What a trailing operation does. -/
  trailing : PostfixOp → V → Except (EvalError V) V
  /-- What a function does. -/
  function : Function → V → V
  /-- The product written with its sign is the implicit one. -/
  binary_multiply (v w : V) : binary .multiply v w = .ok (multiply v w)

section Value

variable {V : Type} [Arithmetic V]

/-- The value of a constant. -/
def Constant.value : Constant V → V
  | .pi => Arithmetic.pi
  | .e => Arithmetic.e
  | .i => Arithmetic.i
  | .answer v => v

/-- The value of a numeral. -/
def Numeral.value (n : Numeral) : Except NumeralError V :=
  n.read.map fun (whole, fraction) => Arithmetic.decimal whole fraction

/-- The value of a single numeric key; a point that stands alone has none. -/
def Numeric.value : Numeric V → Except NumeralError V
  | .digit d => Numeral.value [some d]
  | .point => .error .barePoint
  | .constant c => .ok c.value

end Value

end Keypad
