/-! # Complex numbers

Pairs of a real and an imaginary part over any arithmetic of the parts, with the sum, difference,
product and quotient of the textbook. The parts may be exact numbers or doubles; with doubles every
operation below rounds where it is written. -/

namespace Keypad

/-- A **complex number** with parts in `R`. -/
structure Complex (R : Type) where
  /-- The real part. -/
  re : R
  /-- The imaginary part. -/
  im : R
  deriving DecidableEq, Repr

namespace Complex

variable {R : Type}

instance [Add R] : Add (Complex R) := ⟨fun z w => ⟨z.re + w.re, z.im + w.im⟩⟩

instance [Sub R] : Sub (Complex R) := ⟨fun z w => ⟨z.re - w.re, z.im - w.im⟩⟩

instance [Neg R] : Neg (Complex R) := ⟨fun z => ⟨-z.re, -z.im⟩⟩

instance [Add R] [Sub R] [Mul R] : Mul (Complex R) :=
  ⟨fun z w => ⟨z.re * w.re - z.im * w.im, z.re * w.im + z.im * w.re⟩⟩

instance [Add R] [Sub R] [Mul R] [Div R] : Div (Complex R) :=
  ⟨fun z w =>
    let n := w.re * w.re + w.im * w.im
    ⟨(z.re * w.re + z.im * w.im) / n, (z.im * w.re - z.re * w.im) / n⟩⟩

/-- Divides both parts by a number. -/
def divReal [Div R] (z : Complex R) (r : R) : Complex R := ⟨z.re / r, z.im / r⟩

/-- Whether both parts are equal in the arithmetic of the parts. -/
def equal [BEq R] (z w : Complex R) : Bool := z.re == w.re && z.im == w.im

/-- The real part of a sum is the sum of the real parts. -/
@[simp] theorem add_re [Add R] (z w : Complex R) : (z + w).re = z.re + w.re := rfl

/-- The imaginary part of a sum is the sum of the imaginary parts. -/
@[simp] theorem add_im [Add R] (z w : Complex R) : (z + w).im = z.im + w.im := rfl

/-- The real part of a difference is the difference of the real parts. -/
@[simp] theorem sub_re [Sub R] (z w : Complex R) : (z - w).re = z.re - w.re := rfl

/-- The imaginary part of a difference is the difference of the imaginary parts. -/
@[simp] theorem sub_im [Sub R] (z w : Complex R) : (z - w).im = z.im - w.im := rfl

/-- The real part of a product: the imaginary parts enter it with a minus. -/
@[simp] theorem mul_re [Add R] [Sub R] [Mul R] (z w : Complex R) :
    (z * w).re = z.re * w.re - z.im * w.im := rfl

/-- The imaginary part of a product crosses the parts of both factors. -/
@[simp] theorem mul_im [Add R] [Sub R] [Mul R] (z w : Complex R) :
    (z * w).im = z.re * w.im + z.im * w.re := rfl

end Complex

/-- The **values** of the calculator: complex numbers in double precision. -/
abbrev Value := Complex Float

end Keypad
