import Keypad.Complex.Basic
import Keypad.Double.Exact

/-! # Elementary functions of complex numbers

Exponentials, logarithms, powers, roots, circular and hyperbolic functions and their inverses, each
on its principal branch, by the usual formulas in the real and the imaginary part. -/

namespace Keypad.Complex

/-! ## Polar form -/

/-- The number with a given modulus and argument. -/
def polar (r t : Float) : Value := ⟨r * Float.cos t, r * Float.sin t⟩

/-- The **modulus**. -/
def modulus (z : Value) : Float := Double.hypotenuse z.re z.im

/-- The **argument**. -/
def argument (z : Value) : Float := Float.atan2 z.im z.re

/-- Zero. -/
def zero : Value := ⟨0, 0⟩

/-- One. -/
def one : Value := ⟨1, 0⟩

/-- Two. -/
def two : Value := ⟨2, 0⟩

/-- The imaginary unit. -/
def unit : Value := ⟨0, 1⟩

/-- Positive infinity. -/
def infinity : Float := 1 / 0

/-- Whether a number is zero. -/
def isZero (z : Value) : Bool := z.equal zero

/-! ## Exponentials, logarithms and powers -/

/-- The exponential. Infinite real parts are settled first, because an infinite modulus has no
direction. -/
def exp (z : Value) : Value :=
  if z.re == -infinity && !z.im.isFinite then zero
  else if z.re == infinity && (z.im == 0 || !z.im.isFinite) then
    ⟨z.re, if z.im.isInf then 0 / 0 else z.im⟩
  else if z.re.isNaN && z.im == 0 then z
  else polar (Float.exp z.re) z.im

/-- The natural logarithm. -/
def ln (z : Value) : Value := ⟨Float.log z.modulus, z.argument⟩

/-- Multiplies the powers of `base` for the bits of `n` above the lowest onto a product. -/
def powBits (product base : Value) (n : Nat) : Value :=
  if n ≤ 1 then product
  else
    -- the bit that is lowest after the shift decides about this square
    let square := base * base
    powBits (if n / 2 % 2 = 1 then product * square else product) square (n / 2)
termination_by n

/-- The power with a natural exponent, by repeated squaring. -/
def powNat (z : Value) (n : Nat) : Value :=
  if h : n = 0 then one
  else if n % 2 = 0 then powNat (z * z) (n / 2)
  else powBits z z n
termination_by n

/-- The reciprocal. -/
def inverse (z : Value) : Value :=
  let n := z.re * z.re + z.im * z.im
  ⟨z.re / n, -z.im / n⟩

/-- The power with a whole exponent. -/
def powInt (z : Value) (n : Int) : Value :=
  if n < 0 then z.inverse.powNat n.natAbs else z.powNat n.natAbs

/-- The power with a real exponent, in polar form. -/
def powReal (z : Value) (x : Float) : Value :=
  if x == 0 then one else polar (Float.pow z.modulus x) (z.argument * x)

/-- The power with a complex exponent. -/
def pow (z w : Value) : Value := if w.isZero then one else (w * z.ln).exp

/-- Whether the sign of a double is positive, that of a zero included. -/
def isPositive (x : Float) : Bool := x.toBits < 0x8000000000000000

/-- The square root. On the axes it is computed from a real root; the sign of a zero imaginary part
tells from which side the negative axis is met. -/
def sqrt (z : Value) : Value :=
  if z.im == 0 then
    if isPositive z.re then ⟨Float.sqrt z.re, z.im⟩
    else
      let r := Float.sqrt (-z.re)
      ⟨0, if isPositive z.im then r else -r⟩
  else if z.re == 0 then
    let r := Float.sqrt (z.im.abs / 2)
    ⟨r, if isPositive z.im then r else -r⟩
  else polar (Float.sqrt z.modulus) (z.argument / 2)

/-! ## Circular and hyperbolic functions -/

/-- The sine. -/
def sin (z : Value) : Value :=
  ⟨Float.sin z.re * Float.cosh z.im, Float.cos z.re * Float.sinh z.im⟩

/-- The cosine. -/
def cos (z : Value) : Value :=
  ⟨Float.cos z.re * Float.cosh z.im, -Float.sin z.re * Float.sinh z.im⟩

/-- The tangent. -/
def tan (z : Value) : Value :=
  let a := z.re + z.re
  let b := z.im + z.im
  (Complex.mk (Float.sin a) (Float.sinh b)).divReal (Float.cos a + Float.cosh b)

/-- The hyperbolic sine. -/
def sinh (z : Value) : Value :=
  ⟨Float.sinh z.re * Float.cos z.im, Float.cosh z.re * Float.sin z.im⟩

/-- The hyperbolic cosine. -/
def cosh (z : Value) : Value :=
  ⟨Float.cosh z.re * Float.cos z.im, Float.sinh z.re * Float.sin z.im⟩

/-- The hyperbolic tangent. -/
def tanh (z : Value) : Value :=
  let a := z.re + z.re
  let b := z.im + z.im
  (Complex.mk (Float.sinh a) (Float.sin b)).divReal (Float.cosh a + Float.cos b)

/-! ## Inverse functions -/

/-- The inverse sine. -/
def asin (z : Value) : Value := -unit * ((one - z * z).sqrt + unit * z).ln

/-- The inverse cosine. -/
def acos (z : Value) : Value := -unit * (unit * (one - z * z).sqrt + z).ln

/-- The inverse tangent, infinite at its two poles. -/
def atan (z : Value) : Value :=
  if z.equal unit then ⟨0, infinity⟩
  else if z.equal (-unit) then ⟨0, -infinity⟩
  else ((one + unit * z).ln - (one - unit * z).ln) / (two * unit)

/-- The inverse hyperbolic sine. -/
def asinh (z : Value) : Value := (z + (one + z * z).sqrt).ln

/-- The inverse hyperbolic cosine. -/
def acosh (z : Value) : Value := two * (((z + one) / two).sqrt + ((z - one) / two).sqrt).ln

/-- The inverse hyperbolic tangent, infinite at its two poles. -/
def atanh (z : Value) : Value :=
  if z.equal one then ⟨infinity, 0⟩
  else if z.equal (-one) then ⟨-infinity, 0⟩
  else ((one + z).ln - (one - z).ln) / two

end Keypad.Complex
