import Keypad.Double.Exact

/-! # Factorials of real numbers

The **gamma function** by Lanczos' approximation with `g = 7` and nine coefficients, and below one
half by reflection. The factorial of a whole number that fits is multiplied out; every other
factorial is a value of the gamma function. -/

namespace Keypad.Double

/-- The ratio of a circle's circumference to its diameter. -/
def pi : Float := 3.141592653589793

/-- The base of the natural logarithm. -/
def e : Float := 2.718281828459045

/-- The constant term of Lanczos' series. -/
def lanczosConstant : Float := 0.99999999999980993

/-- The coefficients of Lanczos' series. -/
def lanczosCoefficients : List Float :=
  [676.5203681218851, -1259.1392167224028, 771.32342877765313, -176.61502916214059,
    12.507343278686905, -0.13857109526572012, 9.9843695780195716e-6, 1.5056327351493116e-7]

/-- Lanczos' approximation of the gamma function from one half on. -/
def lanczos (x : Float) : Float :=
  let x := x - 1
  let t := x + 7 + 0.5
  let series := lanczosCoefficients.zipIdx.foldl
    (fun acc (c, k) => acc + c / (x + Float.ofNat (k + 1))) lanczosConstant
  Float.sqrt (2 * pi) * Float.pow t (x + 0.5) * Float.exp (-t) * series

/-- The **gamma function**; there is no value at zero and the negative whole numbers. -/
def gamma (x : Float) : Float :=
  if x ≤ 0 && isWhole x then 0 / 0
  else if x < 0.5 then pi / (Float.sin (pi * x) * lanczos (1 - x))
  else lanczos x

/-- The largest whole number whose factorial is multiplied out. -/
def maxWholeFactorial : Float := 170

/-- The **factorial** of a real number. -/
def factorial (x : Float) : Float :=
  if isWhole x && 0 ≤ x && x ≤ maxWholeFactorial then
    (List.range' 2 (x.toUInt64.toNat - 1)).foldl (fun acc k => acc * Float.ofNat k) 1
  else gamma (x + 1)

end Keypad.Double
