/-! # Numerals

A **numeral** is a run of digit keys and decimal points as it was typed. Reading it gives the
digits before and after the point; a part that is missing has no digits. The number that the digits
spell is computed in any arithmetic with sums, products and quotients: the whole part from its
first digit on, the fraction from its last digit back. -/

namespace Keypad

/-- A **numeral**: its digits in typing order, with `none` for a decimal point. -/
abbrev Numeral := List (Option Nat)

/-- Why a numeral, or a single key of one, has no value. -/
inductive NumeralError where
  /-- A digit key that is not a decimal digit. -/
  | notADigit (d : Nat)
  /-- A decimal point that stands alone. -/
  | barePoint
  /-- Two or more decimal points. -/
  | tooManyPoints (n : Numeral)
  deriving DecidableEq, Repr

namespace Numeral

/-- A numeral written out. -/
def text (n : Numeral) : String :=
  String.join (n.map fun k => match k with | some d => d.repr | none => ".")

/-- The number of decimal points. -/
def points (n : Numeral) : Nat := n.count none

/-- The digits before the first point. -/
def whole (n : Numeral) : List Nat := (n.takeWhile Option.isSome).filterMap id

/-- The digits after the first point. -/
def fraction (n : Numeral) : List Nat := (n.dropWhile Option.isSome).filterMap id

/-- Splits a numeral at its point. Two points are an error of their own; after that the digits are
checked in the order in which they are used, the fraction from its end. -/
def read (n : Numeral) : Except NumeralError (List Nat × List Nat) :=
  if 1 < n.points then .error (.tooManyPoints n)
  else
    match (n.whole ++ n.fraction.reverse).find? (9 < ·) with
    | some d => .error (.notADigit d)
    | none => .ok (n.whole, n.fraction)

end Numeral

namespace NumeralError

/-- The wording of a numeral error. -/
def message : NumeralError → String
  | .notADigit d => "Not a digit: " ++ d.repr
  | .barePoint => "'.' is not a number"
  | .tooManyPoints n => "Too many '.' in a number: " ++ n.text

end NumeralError

/-! ## The number spelled by digits -/

section Decimal

variable {R : Type} [NatCast R] [Add R] [Mul R] [Div R]

/-- The whole number that some digits spell, taken from the first digit on. -/
def wholeValue (digits : List Nat) : R :=
  digits.foldl (fun acc d => acc * (10 : Nat) + (d : Nat)) ((0 : Nat) : R)

/-- The fraction that some digits after the point spell, taken from the last digit back. -/
def fractionValue (digits : List Nat) : R :=
  digits.foldr (fun d acc => (acc + (d : Nat)) / (10 : Nat)) ((0 : Nat) : R)

/-- The number that digits before and after a point spell. -/
def decimalValue (whole fraction : List Nat) : R := wholeValue whole + fractionValue fraction

end Decimal

end Keypad
