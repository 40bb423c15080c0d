import Keypad.Arithmetic
import Keypad.Complex.Elementary
import Keypad.Double.Gamma

/-! # Calculator arithmetic on complex numbers

What the operations and functions of the calculator do to complex numbers. Real numbers are kept on
the real axis wherever the result is real, so that infinities do not leak into the imaginary part.
An imaginary part too small to tell from rounding noise counts as none. -/

namespace Keypad.Complex

/-- The largest imaginary part that counts as rounding noise. -/
def realTolerance : Float := 1e-12

/-- Whether a number is **real** up to rounding noise. -/
def isReal (z : Value) : Bool := z.im.abs ≤ realTolerance

/-- The largest whole exponent of a power that is multiplied out. -/
def maxWholePower : Float := 64

/-- The product. Real numbers are multiplied as reals. -/
def multiply (z w : Value) : Value :=
  if z.im == 0 && w.im == 0 then ⟨z.re * w.re, 0⟩ else z * w

/-- The quotient. By a real number each part is divided on its own, so that a division by zero is
infinite or not a number, as for doubles. -/
def divide (z w : Value) : Value :=
  if w.im == 0 then ⟨z.re / w.re, if z.im == 0 then 0 else z.im / w.re⟩ else z / w

/-- The power. Real results stay real, small whole exponents are multiplied out, and zero has a
power where it is clear. -/
def power (base exponent : Value) : Value :=
  if base.isReal && exponent.isReal && (0 ≤ base.re || Double.isWhole exponent.re) then
    ⟨Float.pow base.re exponent.re, 0⟩
  else if exponent.isReal && Double.isWhole exponent.re && exponent.re.abs ≤ maxWholePower then
    base.powInt (((Double.toRat? exponent.re).map Rat.num).getD 0)
  else if base.isZero && 0 < exponent.re then zero
  else if base.isZero && exponent.isZero then one
  else base.pow exponent

/-- The root with a whole index. Odd roots of negative numbers are real. -/
def root (index radicand : Value) : Except (EvalError Value) Value :=
  if !(index.isReal && Double.isWhole index.re) then .error (.rootIndex index radicand)
  else
    let n := index.re
    let x := radicand.re
    if radicand.isReal && 0 ≤ x then
      .ok ⟨if n == 2 then Float.sqrt x else Float.pow x (1 / n), 0⟩
    else if radicand.isReal && (Double.remainder n 2).abs == 1 then
      .ok ⟨-Float.pow (-x) (1 / n), 0⟩
    else if radicand.isReal && n == 2 then .ok ⟨0, Float.sqrt (-x)⟩
    else if n == 2 then .ok radicand.sqrt
    else .ok (radicand.powReal (1 / n))

/-- The remainder of a division of real numbers, cut off towards zero. -/
def modulo (z w : Value) : Except (EvalError Value) Value :=
  if z.isReal && w.isReal then .ok ⟨Double.remainder z.re w.re, 0⟩
  else .error (.complexModulo z w)

/-- The factorial of a real number. -/
def factorial (z : Value) : Except (EvalError Value) Value :=
  if z.isReal then .ok ⟨Double.factorial z.re, 0⟩ else .error (.complexFactorial z)

/-- A logarithm to a real base; `direct` is the logarithm of positive real numbers to that base. -/
def logarithm (base : Float) (direct : Float → Float) (z : Value) : Value :=
  if z.isReal && 0 < z.re then ⟨direct z.re, 0⟩ else z.ln.divReal (Float.log base)

/-- The natural logarithm; that of a positive real number is real. -/
def naturalLogarithm (z : Value) : Value :=
  if z.im == 0 && 0 < z.re then ⟨Float.log z.re, 0⟩ else z.ln

/-- What a binary operation does. -/
def binary : BinaryOp → Value → Value → Except (EvalError Value) Value
  | .add, z, w => .ok (z + w)
  | .subtract, z, w => .ok (z - w)
  | .multiply, z, w => .ok (multiply z w)
  | .divide, z, w => .ok (divide z w)
  | .power, z, w => .ok (power z w)
  | .root, z, w => root z w
  | .modulo, z, w => modulo z w

/-- What a leading operation does. A negation is a difference from zero, which keeps a zero
imaginary part positive. -/
def leading : PrefixOp → Value → Except (EvalError Value) Value
  | .plus, z => .ok z
  | .negate, z => .ok (zero - z)
  | .squareRoot, z => root two z

/-- What a trailing operation does. -/
def trailing : PostfixOp → Value → Except (EvalError Value) Value
  | .factorial, z => factorial z

/-- What a function does. -/
def function : Function → Value → Value
  | .sin => sin
  | .cos => cos
  | .tan => tan
  | .asin => asin
  | .acos => acos
  | .atan => atan
  | .sinh => sinh
  | .cosh => cosh
  | .tanh => tanh
  | .asinh => asinh
  | .acosh => acosh
  | .atanh => atanh
  | .log => logarithm 10 Float.log10
  | .lg => logarithm 2 Float.log2
  | .ln => naturalLogarithm

instance : Arithmetic Value where
  zero := zero
  one := one
  decimal whole fraction := ⟨decimalValue whole fraction, 0⟩
  pi := ⟨Double.pi, 0⟩
  e := ⟨Double.e, 0⟩
  i := unit
  multiply := multiply
  binary := binary
  leading := leading
  trailing := trailing
  function := function
  binary_multiply _ _ := rfl

end Keypad.Complex
