import Keypad.Complex.Basic
import Keypad.Decimal
import Keypad.Double.Exact

/-! # Display of values

How a value is shown: `0`, `1+i`, `-2-2i`, `0.3333333333`, `1E20i`. Each part is classified on its
own, as nothing, as a number in fixed or in scientific notation, as infinite or as not a number,
and then the parts are joined; a part that is nothing is dropped, and so is a coefficient of one
before `i`. -/

namespace Keypad

namespace Display

/-- The **thresholds** of the display. -/
structure Options where
  /-- Parts of a smaller magnitude are shown as nothing. -/
  epsilon : Float := 1e-15
  /-- The smallest magnitude in fixed notation. -/
  fixedMin : Float := 1e-5
  /-- Magnitudes from here on are in scientific notation. -/
  fixedMax : Float := 1e10
  /-- The number of digits shown at most. -/
  maxSignificant : Nat := 10
  /-- The number of digits after the point shown at most. -/
  maxFraction : Nat := 10

/-- The **magnitude** of a part as it is shown. -/
inductive Magnitude where
  | infinite
  | fixed (d : Decimal)
  | scientific (d : Decimal) (exponent : Int)
  deriving DecidableEq, Repr

/-- A **part** of a value as it is shown. -/
inductive Part where
  | notANumber
  | nothing
  | shown (negative : Bool) (magnitude : Magnitude)
  deriving DecidableEq, Repr

/-! ## Counting places -/

/-- Where the count of places **overflows**. -/
inductive Overflow where
  /-- One is added to the floor of the logarithm. -/
  | addition
  /-- The digits before the point are taken away from the significant ones. -/
  | subtraction
  deriving DecidableEq, Repr

/-- A number that **fits** into a 64-bit integer. -/
def Fits64 (n : Int) : Prop := Int64.minValue.toInt ≤ n ∧ n ≤ Int64.maxValue.toInt

instance decidableFits64 (n : Int) : Decidable (Fits64 n) :=
  inferInstanceAs (Decidable (Int64.minValue.toInt ≤ n ∧ n ≤ Int64.maxValue.toInt))

/-- The result of a step of the count, which overflows if it is no 64-bit integer. -/
def counted (step : Overflow) (n : Int) : Except Overflow Int64 :=
  if Fits64 n then .ok (Int64.ofInt n) else .error step

/-- The number of digits before the point, from the decimal logarithm of a magnitude. For
magnitudes below one it counts zeros after the point, as a negative number. -/
def digitsBefore (logarithm : Float) : Except Overflow Int64 :=
  counted .addition ((Double.floor64 logarithm).toInt + 1)

/-- The number of places kept in fixed notation, from the decimal logarithm of the magnitude: what
the digits before the point leave of the significant ones, but not more than the fraction may have.
The count is made in 64-bit integers, and a limit from the upper half of the machine words is taken
as a negative one. -/
def places (o : Options) (logarithm : Float) : Except Overflow Nat := do
  let before ← digitsBefore logarithm
  let left ← counted .subtraction (o.maxSignificant.toInt64.toInt - before.toInt)
  return (min (max left 0) o.maxFraction.toInt64).toUInt64.toNat

/-! ## Classifying a part -/

/-- A finite magnitude in fixed notation with so many places, unless rounding takes it out of the
range for that. -/
def fixed? (o : Options) (places : Nat) (q : Rat) : Option Decimal :=
  let d := Decimal.round places q
  if o.fixedMax ≤ Double.nearest d.value then none else some d.trim

/-- A finite magnitude in scientific notation. -/
def scientific (o : Options) (q : Rat) : Magnitude :=
  match Keypad.scientific (o.maxSignificant - 1) q with
  | (d, e) => .scientific d.trim e

/-- A finite magnitude with so many places in fixed notation, or else in scientific notation. -/
def rounded (o : Options) (q : Rat) (places : Nat) : Magnitude :=
  match fixed? o places q with
  | some d => .fixed d
  | none => scientific o q

/-- A finite magnitude, in fixed notation if it is in the range for that. Only there are places
counted, from its decimal logarithm. -/
def magnitude (o : Options) (log10 : Float → Float) (x : Float) (q : Rat) :
    Except Overflow Magnitude :=
  if o.fixedMin ≤ x && x < o.fixedMax then (places o (log10 x)).map (rounded o q)
  else .ok (scientific o q)

/-- The **class** of a part, given a decimal logarithm. -/
def classify (o : Options) (log10 : Float → Float) (x : Float) : Except Overflow Part :=
  if x.isNaN then .ok .notANumber
  else if x.abs < o.epsilon then .ok .nothing
  else
    match Double.toRat? x.abs with
    | none => .ok (.shown (x < 0) .infinite)
    | some q => (magnitude o log10 x.abs q).map (.shown (x < 0))

/-! ## Writing parts -/

/-- A magnitude written out. -/
def Magnitude.text : Magnitude → String
  | .infinite => "∞"
  | .fixed d => d.text
  | .scientific d e => d.text ++ "E" ++ e.repr

/-- A magnitude as a coefficient of `i`: a one is not written. -/
def Magnitude.coefficient (m : Magnitude) : String :=
  if m = .fixed ⟨1, 0⟩ then "" else m.text

/-- A part standing alone. -/
def Part.text : Part → String
  | .notANumber => "NaN"
  | .nothing => "0"
  | .shown negative m => (if negative then "-" else "") ++ m.text

/-- The real and the imaginary part joined. -/
def join : Part → Part → String
  | .notANumber, .notANumber => "NaN"
  | re, .nothing => re.text
  | .nothing, .shown negative m => (if negative then "-" else "") ++ m.coefficient ++ "i"
  | .nothing, .notANumber => "NaNi"
  | re, .shown negative m => re.text ++ (if negative then "-" else "+") ++ m.coefficient ++ "i"
  | re, .notANumber => re.text ++ "+NaNi"

/-- The text of a value, given a decimal logarithm. The real part is classified first. -/
def textWith (log10 : Float → Float) (o : Options) (v : Value) : Except Overflow String := do
  let re ← classify o log10 v.re
  let im ← classify o log10 v.im
  return join re im

end Display

/-- The text of a value with given thresholds. It has none if the count of places overflows. -/
def Value.textWith (o : Display.Options) (v : Value) : Except Display.Overflow String :=
  Display.textWith Double.log10 o v

/-- The display text of a value with given thresholds, which is empty if there is none. -/
def Value.displayWith (o : Display.Options) (v : Value) : String :=
  match v.textWith o with
  | .ok t => t
  | .error _ => ""

/-- The **display text** of a value. With the default thresholds no count overflows, so that there
always is one. -/
def Value.display (v : Value) : String := v.displayWith {}

instance : ToString Value := ⟨Value.display⟩

end Keypad
