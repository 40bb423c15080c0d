/-! # Double precision numbers as exact numbers

Every finite double is a rational number, and every rational number has a nearest double. What is
not a matter of rounding, such as being whole or the remainder of a division, is computed here on
the exact numbers. -/

namespace Keypad.Double

open Float.Model

/-- A natural number as a double, rounded if need be. -/
instance natCast : NatCast Float := ⟨Float.ofNat⟩

/-- The **exact value** of a finite double. -/
def toRat? (x : Float) : Option Rat :=
  match x.toModel.unpack with
  | .zero _ => some 0
  | .finite sign m e _ => some (sign.apply (m : Int) * (2 : Rat) ^ e)
  | _ => none

/-- The **nearest double** to a number. -/
def nearest (q : Rat) : Float :=
  if h : 0 < q.num.natAbs then
    .ofModel (Float.Model.pack (UnpackedFloat.div .binary64
      (.finite (if q < 0 then .negative else .positive) q.num.natAbs 0 h)
      (.finite .positive q.den 0 q.den_pos)))
  else 0

/-- Whether a double is a whole number; infinities are not. -/
def isWhole (x : Float) : Bool :=
  match toRat? x with
  | some q => q.den == 1
  | none => false

/-- The largest 64-bit integer up to a double; anything out of range goes to the nearer end, and
zero stands for what is not a number. -/
def floor64 (x : Float) : Int64 :=
  match toRat? x with
  | some q => Int64.ofInt (max Int64.minValue.toInt (min q.floor Int64.maxValue.toInt))
  | none => if x.isNaN then 0 else if x < 0 then Int64.minValue else Int64.maxValue

/-- The **decimal logarithm**. Nothing is known here of the one that the machine computes, so what
holds of every logarithm is said beside it: zero has minus infinity, a number below zero has none,
and that of a positive number is between those of the least and the largest double. -/
def log10 (x : Float) : Float :=
  match toRat? x with
  | some q =>
    if q = 0 then -(1 / 0)
    else if q < 0 then 0 / 0
    else max (-324) (min (Float.log10 x) 309)
  | none => Float.log10 x

/-- The **remainder** of a division whose quotient is cut off towards zero. It is exact and has the
sign of the dividend; no finite number has a remainder by zero, nor has an infinity any. -/
def remainder (x y : Float) : Float :=
  match toRat? x, toRat? y with
  | some p, some q =>
    if q = 0 then 0 / 0
    else if p = 0 then x
    else
      let r := nearest (p.abs - q.abs * (p.abs / q.abs).floor)
      if p < 0 then -r else r
  | some _, none => if y.isNaN then y else x
  | none, _ => 0 / 0

/-- The **length of the hypotenuse** over two legs, rounded once. An infinite leg decides, even
beside what is not a number. -/
def hypotenuse (x y : Float) : Float :=
  match toRat? x, toRat? y with
  | some p, some q =>
    let s := p * p + q * q
    if h : 0 < s.num.natAbs then
      .ofModel (Float.Model.pack (UnpackedFloat.sqrt .binary64
        (.finite .positive s.num.natAbs (-(s.den.log2 : Int)) h)))
    else 0
  | _, _ => if x.isInf || y.isInf then 1 / 0 else 0 / 0

end Keypad.Double
