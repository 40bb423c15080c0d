import Keypad.Complex.Basic
import Keypad.Expr.Evaluation
import Mathlib.Algebra.Order.Field.Rat
import Mathlib.Tactic.FieldSimp
import Mathlib.Tactic.Ring

/-! # Exact arithmetic

The arithmetic of rational complex numbers, in which nothing is rounded. What is not a rational
complex number, such as `π`, a root or a division by zero, has no exact value, and neither has
anything computed from it. -/

namespace Keypad

namespace Complex

/-- One is neutral. -/
theorem one_mul (z : Complex Rat) : ⟨1, 0⟩ * z = z := by
  have hre : 1 * z.re - 0 * z.im = z.re := by ring
  have him : 1 * z.im + 0 * z.re = z.im := by ring
  exact congrArg₂ Complex.mk hre him

/-! ## Real and imaginary numbers -/

/-- The negation of a real number is real. -/
theorem neg_real (r : Rat) : -(⟨r, 0⟩ : Complex Rat) = ⟨-r, 0⟩ := by
  have him : -(0 : Rat) = 0 := neg_zero
  exact congrArg (Complex.mk (-r)) him

/-- The product of real numbers is real: in exact arithmetic the cross terms vanish. -/
theorem mul_real (q r : Rat) : (⟨q, 0⟩ * ⟨r, 0⟩ : Complex Rat) = ⟨q * r, 0⟩ := by
  have hre : q * r - 0 * 0 = q * r := by ring
  have him : q * 0 + 0 * r = 0 := by ring
  exact congrArg₂ Complex.mk hre him

/-- A coefficient before the imaginary unit. -/
theorem mul_unit (q : Rat) : (⟨q, 0⟩ * ⟨0, 1⟩ : Complex Rat) = ⟨0, q⟩ := by
  have hre : q * 0 - 0 * 1 = 0 := by ring
  have him : q * 1 + 0 * 0 = q := by ring
  exact congrArg₂ Complex.mk hre him

/-- A sign before a real number goes to its real part. -/
theorem signed_real (negative : Bool) (r : Rat) :
    (if negative then -⟨r, 0⟩ else ⟨r, 0⟩ : Complex Rat) = ⟨if negative then -r else r, 0⟩ := by
  cases negative with
  | false => rfl
  | true => exact neg_real r

/-- A sign before an imaginary number goes to its imaginary part. -/
theorem signed_imag (negative : Bool) (r : Rat) :
    (if negative then -⟨0, r⟩ else ⟨0, r⟩ : Complex Rat) = ⟨0, if negative then -r else r⟩ := by
  cases negative with
  | false => rfl
  | true =>
    have hre : -(0 : Rat) = 0 := neg_zero
    exact congrArg (Complex.mk · (-r)) hre

/-- A real and an imaginary number, and the sign between them. -/
theorem joined_parts (negative : Bool) (p r : Rat) :
    (if negative then ⟨p, 0⟩ - ⟨0, r⟩ else ⟨p, 0⟩ + ⟨0, r⟩ : Complex Rat) =
      ⟨p, if negative then -r else r⟩ := by
  cases negative with
  | false => exact congrArg₂ Complex.mk (add_zero p) (zero_add r)
  | true => exact congrArg₂ Complex.mk (sub_zero p) (zero_sub r)

/-! ## Quotients and powers -/

/-- The power of a rational complex number with a natural exponent. -/
def exactPowNat (z : Complex Rat) : Nat → Complex Rat
  | 0 => ⟨1, 0⟩
  | n + 1 => exactPowNat z n * z

/-- The quotient of rational complex numbers; by zero there is none. -/
def exactDiv (z w : Complex Rat) : Option (Complex Rat) :=
  if w = ⟨0, 0⟩ then none else some (z / w)

/-- The power of rational complex numbers, if the exponent is a whole real number. -/
def exactPow (z w : Complex Rat) : Option (Complex Rat) :=
  if w.im = 0 ∧ w.re.den = 1 then
    if 0 ≤ w.re.num then some (exactPowNat z w.re.num.natAbs)
    else exactDiv ⟨1, 0⟩ (exactPowNat z w.re.num.natAbs)
  else none

end Complex

/-- A number computed **exactly**, if it is a rational complex number. -/
def Exact : Type := Option (Complex Rat)

namespace Exact

/-- The result of what has no exact value. -/
def unknown : Exact := none

/-- The exact result of an operation on exact numbers. -/
def lift (f : Complex Rat → Complex Rat → Option (Complex Rat)) (z w : Exact) : Exact :=
  Option.bind z fun z => Option.bind w fun w => f z w

/-- The exact product. -/
def multiply : Exact → Exact → Exact := lift fun z w => some (z * w)

/-- What a binary operation does to exact numbers. -/
def binary : BinaryOp → Exact → Exact → Except (EvalError Exact) Exact
  | .add, z, w => .ok (lift (fun z w => some (z + w)) z w)
  | .subtract, z, w => .ok (lift (fun z w => some (z - w)) z w)
  | .multiply, z, w => .ok (multiply z w)
  | .divide, z, w => .ok (lift Complex.exactDiv z w)
  | .power, z, w => .ok (lift Complex.exactPow z w)
  | .root, _, _ => .ok unknown
  | .modulo, _, _ => .ok unknown

/-- What a leading operation does to exact numbers. -/
def leading : PrefixOp → Exact → Except (EvalError Exact) Exact
  | .plus, z => .ok z
  | .negate, z => .ok (Option.map (fun z => -z) z)
  | .squareRoot, _ => .ok unknown

instance : Arithmetic Exact where
  zero := some ⟨0, 0⟩
  one := some ⟨1, 0⟩
  decimal whole fraction := some ⟨decimalValue whole fraction, 0⟩
  pi := unknown
  e := unknown
  i := some ⟨0, 1⟩
  multiply := multiply
  binary := binary
  leading := leading
  trailing _ _ := .ok unknown
  function _ _ := unknown
  binary_multiply _ _ := rfl

end Exact

namespace Complex

/-- The powers of a real number are real. -/
theorem exactPowNat_real (r : Rat) (n : Nat) : exactPowNat ⟨r, 0⟩ n = ⟨r ^ n, 0⟩ := by
  induction n with
  | zero => rw [exactPowNat, pow_zero]
  | succ n ih =>
    rw [exactPowNat, ih]
    have hre : r ^ n * r - 0 * 0 = r ^ (n + 1) := by ring
    have him : r ^ n * 0 + 0 * r = 0 := by ring
    exact congrArg₂ Complex.mk hre him

/-- Whole powers of a real number other than zero are those of real numbers. -/
theorem exactPow_real {r : Rat} (hr : r ≠ 0) (n : Int) :
    exactPow ⟨r, 0⟩ ⟨(n : Rat), 0⟩ = some ⟨r ^ n, 0⟩ := by
  have hint : (⟨(n : Rat), 0⟩ : Complex Rat).im = 0 ∧ (⟨(n : Rat), 0⟩ : Complex Rat).re.den = 1 :=
    ⟨rfl, Rat.den_intCast n⟩
  have hpow : r ^ n.natAbs ≠ 0 := pow_ne_zero _ hr
  rw [exactPow, if_pos hint]
  dsimp only
  rw [Rat.num_intCast, exactPowNat_real]
  by_cases hn : 0 ≤ n
  · rw [if_pos hn, ← zpow_natCast, Int.natAbs_of_nonneg hn]
  · -- a negative power is the quotient of one and a natural power, which is not zero
    have hz : (⟨r ^ n.natAbs, 0⟩ : Complex Rat) ≠ ⟨0, 0⟩ := fun h => hpow (congrArg Complex.re h)
    have hneg : n = -(n.natAbs : Int) := by omega
    rw [if_neg hn, exactDiv, if_neg hz]
    have hre : (1 * r ^ n.natAbs + 0 * 0) / (r ^ n.natAbs * r ^ n.natAbs + 0 * 0) = r ^ n := by
      conv_rhs => rw [hneg, zpow_neg, zpow_natCast]
      field_simp
      ring
    have him : (0 * r ^ n.natAbs - 1 * 0) / (r ^ n.natAbs * r ^ n.natAbs + 0 * 0) = 0 := by
      ring
    exact congrArg some (congrArg₂ Complex.mk hre him)

end Complex

end Keypad
