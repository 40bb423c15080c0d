/-! # Decimal numbers of a fixed number of places

A **decimal** is a whole number of units in some decimal place. Rounding an exact number to a
decimal goes to the nearest unit, and half a unit goes to the even neighbour. A decimal is written
with one digit before the point at least; **trimming** removes the zeros at its end. -/

namespace Keypad

/-- The whole number nearest to a number that is not negative; a half goes to the even
neighbour. -/
def roundHalfEven (q : Rat) : Nat :=
  let whole := q.num.natAbs / q.den
  let rest := q.num.natAbs % q.den
  if 2 * rest < q.den ∨ (2 * rest = q.den ∧ whole % 2 = 0) then whole else whole + 1

/-- A **decimal**: `coefficient` units of the last of `places` places after the point. -/
structure Decimal where
  coefficient : Nat
  places : Nat
  deriving DecidableEq, Repr

namespace Decimal

/-- The number that a decimal stands for. -/
def value (d : Decimal) : Rat := d.coefficient / (10 : Rat) ^ (d.places : Int)

/-- The decimal of so many places nearest to a number that is not negative. -/
def round (places : Nat) (q : Rat) : Decimal :=
  ⟨roundHalfEven (q * (10 : Rat) ^ (places : Int)), places⟩

/-- Removes the zeros at the end of so many places. -/
def trimPlaces (coefficient : Nat) : Nat → Decimal
  | 0 => ⟨coefficient, 0⟩
  | places + 1 =>
    if coefficient % 10 = 0 then trimPlaces (coefficient / 10) places
    else ⟨coefficient, places + 1⟩

/-- Removes the zeros at the end of the fraction. -/
def trim (d : Decimal) : Decimal := trimPlaces d.coefficient d.places

/-- The digits of a decimal, with zeros in front so that one stands before the point. -/
def digits (d : Decimal) : List Char :=
  let written := Nat.toDigits 10 d.coefficient
  List.replicate (d.places + 1 - written.length) '0' ++ written

/-- The digits before the point. -/
def wholeDigits (d : Decimal) : List Char := d.digits.take (d.digits.length - d.places)

/-- The digits after the point. -/
def fractionDigits (d : Decimal) : List Char := d.digits.drop (d.digits.length - d.places)

/-- A decimal written out; without places there is no point. -/
def text (d : Decimal) : String :=
  String.ofList
    (if d.places = 0 then d.wholeDigits else d.wholeDigits ++ '.' :: d.fractionDigits)

/-- There are as many digits after the point as places, whatever the coefficient is. -/
@[simp] theorem length_fractionDigits (d : Decimal) : d.fractionDigits.length = d.places := by
  simp only [fractionDigits, List.length_drop, digits, List.length_append, List.length_replicate]
  omega

/-- The point only divides the digits: none is lost. -/
theorem wholeDigits_append_fractionDigits (d : Decimal) :
    d.wholeDigits ++ d.fractionDigits = d.digits :=
  List.take_append_drop ..

end Decimal

/-! ## Scientific notation -/

/-- The exponent of the first digit of a positive number: `10 ^ e ≤ q < 10 ^ (e + 1)`. The lengths
of numerator and denominator leave two candidates. -/
def decimalExponent (q : Rat) : Int :=
  -- `m` digits over `n` digits lie between `10 ^ (m - n - 1)` and `10 ^ (m - n + 1)`
  let e : Int := (Nat.toDigits 10 q.num.natAbs).length - (Nat.toDigits 10 q.den).length
  if (10 : Rat) ^ e ≤ q then e else e - 1

/-- A number that is not negative as a decimal with one digit before the point and so many places,
times a power of ten. Where rounding carries into a further digit, the exponent takes it up. -/
def scientific (places : Nat) (q : Rat) : Decimal × Int :=
  if q = 0 then (⟨0, places⟩, 0)
  else
    let e := decimalExponent q
    let d := Decimal.round places (q / (10 : Rat) ^ e)
    if 10 ≤ d.value then (⟨d.coefficient / 10, places⟩, e + 1) else (d, e)

end Keypad
