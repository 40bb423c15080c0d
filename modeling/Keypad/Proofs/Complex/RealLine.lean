import Keypad.Proofs.Expr.Strictness

/-! # Real arithmetic stays real

Sums, differences, products, quotients, remainders and factorials of real numbers are real numbers:
the imaginary part stays zero, whatever becomes of the real part. That does not depend on doubles. The
arithmetic is taken here over any operations on the parts, of which only four equations about zero
are known. -/

namespace Keypad

/-! ## Arithmetic over any operations on the parts -/

/-- **Operations on the parts** of complex numbers, besides sums, differences, products, quotients and
comparisons, and the operations that real arithmetic does without. -/
structure PartOps (R : Type) where
  /-- One. -/
  one : R
  /-- The constant `π`. -/
  pi : R
  /-- The base of the natural logarithm. -/
  e : R
  /-- The number spelled by digits before and after a point. -/
  decimal (whole fraction : List Nat) : R
  /-- Whether an imaginary part counts as none. -/
  negligible : R → Bool
  /-- The remainder of a division. -/
  remainder : R → R → R
  /-- The factorial. -/
  factorial : R → R
  /-- The imaginary unit. -/
  unit : Complex R
  /-- The power. -/
  power : Complex R → Complex R → Complex R
  /-- The root. -/
  root : Complex R → Complex R → Except (EvalError (Complex R)) (Complex R)
  /-- The square root. -/
  squareRoot : Complex R → Except (EvalError (Complex R)) (Complex R)
  /-- What a function does. -/
  function : Function → Complex R → Complex R

namespace PartOps

variable {R : Type} [OfNat R 0] [Add R] [Sub R] [Mul R] [Div R] [BEq R]

/-- What is known of zero. -/
structure ZeroLaws (o : PartOps R) : Prop where
  add_zero : (0 : R) + 0 = 0
  sub_zero : (0 : R) - 0 = 0
  beq_zero : ((0 : R) == 0) = true
  negligible_zero : o.negligible 0 = true

/-- The product. Real numbers are multiplied as reals. -/
def multiply (z w : Complex R) : Complex R :=
  if z.im == 0 && w.im == 0 then ⟨z.re * w.re, 0⟩ else z * w

/-- The quotient. By a real number each part is divided on its own. -/
def divide (z w : Complex R) : Complex R :=
  if w.im == 0 then ⟨z.re / w.re, if z.im == 0 then 0 else z.im / w.re⟩ else z / w

/-- The remainder of real numbers. -/
def modulo (o : PartOps R) (z w : Complex R) : Except (EvalError (Complex R)) (Complex R) :=
  if o.negligible z.im && o.negligible w.im then .ok ⟨o.remainder z.re w.re, 0⟩
  else .error (.complexModulo z w)

/-- The factorial of a real number. -/
def factorialOf (o : PartOps R) (z : Complex R) : Except (EvalError (Complex R)) (Complex R) :=
  if o.negligible z.im then .ok ⟨o.factorial z.re, 0⟩ else .error (.complexFactorial z)

/-- What a binary operation does. -/
def binary (o : PartOps R) :
    BinaryOp → Complex R → Complex R → Except (EvalError (Complex R)) (Complex R)
  | .add, z, w => .ok (z + w)
  | .subtract, z, w => .ok (z - w)
  | .multiply, z, w => .ok (multiply z w)
  | .divide, z, w => .ok (divide z w)
  | .power, z, w => .ok (o.power z w)
  | .root, z, w => o.root z w
  | .modulo, z, w => o.modulo z w

/-- What a leading operation does. -/
def leading (o : PartOps R) : PrefixOp → Complex R → Except (EvalError (Complex R)) (Complex R)
  | .plus, z => .ok z
  | .negate, z => .ok (⟨0, 0⟩ - z)
  | .squareRoot, z => o.squareRoot z

/-- What a trailing operation does. -/
def trailing (o : PartOps R) : PostfixOp → Complex R → Except (EvalError (Complex R)) (Complex R)
  | .factorial, z => o.factorialOf z

/-- The **arithmetic** of complex numbers over operations on their parts. -/
@[reducible]
def arithmetic (o : PartOps R) : Arithmetic (Complex R) where
  zero := ⟨0, 0⟩
  one := ⟨o.one, 0⟩
  decimal whole fraction := ⟨o.decimal whole fraction, 0⟩
  pi := ⟨o.pi, 0⟩
  e := ⟨o.e, 0⟩
  i := o.unit
  multiply := multiply
  binary := o.binary
  leading := o.leading
  trailing := o.trailing
  function := o.function
  binary_multiply _ _ := rfl

/-- The operations on **doubles**. -/
def double : PartOps Float where
  one := 1
  pi := Double.pi
  e := Double.e
  decimal := decimalValue
  negligible x := x.abs ≤ Complex.realTolerance
  remainder := Double.remainder
  factorial := Double.factorial
  unit := Complex.unit
  power := Complex.power
  root := Complex.root
  squareRoot := Complex.root Complex.two
  function := Complex.function

/-- Over doubles the binary operations are those of complex numbers. -/
theorem binary_double : binary double = Complex.binary := by
  funext op z w
  cases op <;> rfl

/-- Over doubles the leading operations are those of complex numbers. -/
theorem leading_double : leading double = Complex.leading := by
  funext op z
  cases op <;> rfl

/-- Over doubles this is **the arithmetic of the calculator**. -/
theorem arithmetic_double : double.arithmetic = (inferInstance : Arithmetic Value) := by
  unfold arithmetic
  congr 1
  · exact binary_double
  · exact leading_double

/-- Doubles have the laws of zero. -/
theorem double_zeroLaws : double.ZeroLaws where
  add_zero := by decide
  sub_zero := by decide
  beq_zero := by decide
  negligible_zero := by decide

/-! ## Real operations -/

omit [Div R] in
/-- **Products stay on the real line**, by the laws of zero alone. -/
theorem multiply_real {o : PartOps R} (h : o.ZeroLaws) (x y : R) :
    multiply (⟨x, 0⟩ : Complex R) ⟨y, 0⟩ = ⟨x * y, 0⟩ := by
  simp [multiply, h.beq_zero]

/-- **Quotients stay on the real line**: dividing by a real number divides the parts. -/
theorem divide_real {o : PartOps R} (h : o.ZeroLaws) (x y : R) :
    divide (⟨x, 0⟩ : Complex R) ⟨y, 0⟩ = ⟨x / y, 0⟩ := by
  simp [divide, h.beq_zero]

/-- The **real binary operations**. -/
def IsRealBinary : BinaryOp → Prop
  | .power => False
  | .root => False
  | _ => True

/-- Real binary operations on real numbers refuse nothing and are real. -/
theorem exists_binary_real {o : PartOps R} (h : o.ZeroLaws) {op : BinaryOp} (hop : IsRealBinary op)
    (x y : R) : ∃ z, o.binary op ⟨x, 0⟩ ⟨y, 0⟩ = .ok ⟨z, 0⟩ := by
  cases op with
  | add => exact ⟨x + y, congrArg (Except.ok ∘ Complex.mk _) h.add_zero⟩
  | subtract => exact ⟨x - y, congrArg (Except.ok ∘ Complex.mk _) h.sub_zero⟩
  | multiply => exact ⟨x * y, congrArg Except.ok (multiply_real h x y)⟩
  | divide => exact ⟨x / y, congrArg Except.ok (divide_real h x y)⟩
  | power => exact hop.elim
  | root => exact hop.elim
  | modulo => exact ⟨o.remainder x y, by simp [binary, modulo, h.negligible_zero]⟩

/-- The **real leading operations**. -/
def IsRealLeading : PrefixOp → Prop
  | .squareRoot => False
  | _ => True

omit [Mul R] [Div R] in
/-- Leading operations that are real stay on the real line. -/
theorem exists_leading_real {o : PartOps R} (h : o.ZeroLaws) {op : PrefixOp}
    (hop : IsRealLeading op) (x : R) : ∃ z, o.leading op ⟨x, 0⟩ = .ok ⟨z, 0⟩ := by
  cases op with
  | plus => exact ⟨x, rfl⟩
  | negate => exact ⟨0 - x, congrArg (Except.ok ∘ Complex.mk _) h.sub_zero⟩
  | squareRoot => exact hop.elim

omit [Mul R] [Div R] in
/-- Factorials stay on the real line. -/
theorem exists_trailing_real {o : PartOps R} (h : o.ZeroLaws) (op : PostfixOp) (x : R) :
    ∃ z, o.trailing op ⟨x, 0⟩ = .ok ⟨z, 0⟩ := by
  cases op with
  | factorial => exact ⟨o.factorial x, by simp [trailing, factorialOf, h.negligible_zero]⟩

end PartOps

/-! ## Real expressions -/

namespace Expr

variable {R : Type} [OfNat R 0] [Add R] [Sub R] [Mul R] [Div R] [BEq R]

/-- The **parts of real expressions**: well-formed numerals, real constants, groups, and operations
that keep to the real numbers. -/
def IsRealPart : Expr (Complex R) → Prop
  | .leaf (.digit d) => d ≤ 9
  | .leaf .point => False
  | .leaf (.constant .i) => False
  | .leaf (.constant (.answer v)) => v.im = 0
  | .leaf (.constant _) => True
  | .number n => ¬ n.IsMalformed
  | .group _ => True
  | .binary op _ _ => PartOps.IsRealBinary op
  | .leading op _ => PartOps.IsRealLeading op
  | .trailing _ _ => True
  | .apply _ _ => False

/-- The value of an expression over operations on the parts. -/
def evalOver (o : PartOps R) (e : Expr (Complex R)) :
    Except (EvalError (Complex R)) (Complex R) :=
  letI := o.arithmetic
  e.eval

/-- An expression that **has a real value**. -/
def HasRealValue (o : PartOps R) (e : Expr (Complex R)) : Prop := ∃ x, e.evalOver o = .ok ⟨x, 0⟩

/-- A numeral that is not malformed has the value of its digits. -/
theorem exists_value_eq_decimal {V : Type} [Arithmetic V] {n : Numeral} (hn : ¬ n.IsMalformed) :
    ∃ whole fraction, (n.value : Except NumeralError V) = .ok (Arithmetic.decimal whole fraction) := by
  rw [← n.exists_read_eq_error_iff, Numeral.value] at *
  cases hread : n.read with
  | error e => exact absurd ⟨e, hread⟩ hn
  | ok p => exact ⟨p.1, p.2, rfl⟩

/-- A product of real numbers is real. -/
theorem exists_evalProduct_real {o : PartOps R} (h : o.ZeroLaws) {es : List (Expr (Complex R))}
    (hes : ∀ e ∈ es, e.HasRealValue o) (x : R) :
    letI := o.arithmetic
    ∃ y, evalProduct ⟨x, 0⟩ es = .ok ⟨y, 0⟩ := by
  let := o.arithmetic
  -- the product so far stays real, and every factor changes it, so it is generalized
  induction es generalizing x with
  | nil => exact ⟨x, rfl⟩
  | cons e es ih =>
    obtain ⟨⟨y, hy⟩, hes⟩ := List.forall_mem_cons.1 hes
    have hy : e.eval = .ok ⟨y, 0⟩ := hy
    have hproduct : (Arithmetic.multiply ⟨x, 0⟩ ⟨y, 0⟩ : Complex R) = ⟨x * y, 0⟩ :=
      PartOps.multiply_real h x y
    rw [evalProduct_cons, hy]
    show ∃ z, evalProduct (Arithmetic.multiply ⟨x, 0⟩ ⟨y, 0⟩) es = .ok ⟨z, 0⟩
    rw [hproduct]
    exact ih hes (x * y)

/-- **One step**: a real part whose operands have real values has a real value. -/
theorem IsRealPart.hasRealValue {o : PartOps R} (h : o.ZeroLaws) {e : Expr (Complex R)}
    (he : e.IsRealPart) (hoperands : ∀ a ∈ e.operands, a.HasRealValue o) : e.HasRealValue o := by
  let := o.arithmetic
  -- digits and numerals have values of one kind, decimals without an imaginary part
  have hnumeral {n : Numeral} (hn : ¬ n.IsMalformed) :
      ∃ x, n.value.mapError (EvalError.numeral (V := Complex R)) = .ok (⟨x, 0⟩ : Complex R) := by
    obtain ⟨whole, fraction, hvalue⟩ := exists_value_eq_decimal (V := Complex R) hn
    exact ⟨o.decimal whole fraction, by rw [hvalue]; rfl⟩
  -- the operands are real, so every operator is applied on the real line
  cases e with
  | leaf n =>
    cases n with
    | digit d => exact hnumeral fun hn => Nat.not_lt.2 he (isMalformed_digit_iff.1 hn)
    | point => exact he.elim
    | constant c =>
      cases c with
      | pi => exact ⟨o.pi, rfl⟩
      | e => exact ⟨o.e, rfl⟩
      | i => exact he.elim
      | answer v =>
        -- of the answers only those without an imaginary part are real parts
        have hv : v.im = 0 := he
        exact ⟨v.re, congrArg (Except.ok ∘ Complex.mk v.re) hv⟩
  | number n => exact hnumeral he
  | group es => exact exists_evalProduct_real h hoperands o.one
  | binary op lhs rhs =>
    obtain ⟨⟨x, hx⟩, hrhs⟩ := List.forall_mem_cons.1 hoperands
    obtain ⟨y, hy⟩ := List.forall_mem_singleton.1 hrhs
    obtain ⟨z, hz⟩ := PartOps.exists_binary_real h he x y
    refine ⟨z, ?_⟩
    rw [evalOver] at hx hy ⊢
    rw [eval_binary, hx, hy]
    exact hz
  | leading op rhs =>
    obtain ⟨x, hx⟩ := List.forall_mem_singleton.1 hoperands
    obtain ⟨z, hz⟩ := PartOps.exists_leading_real h he x
    refine ⟨z, ?_⟩
    rw [evalOver] at hx ⊢
    rw [eval_leading, hx]
    exact hz
  | trailing op lhs =>
    obtain ⟨x, hx⟩ := List.forall_mem_singleton.1 hoperands
    obtain ⟨z, hz⟩ := PartOps.exists_trailing_real h op x
    refine ⟨z, ?_⟩
    rw [evalOver] at hx ⊢
    rw [eval_trailing, hx]
    exact hz
  | apply f arg => exact he.elim

/-- **The whole evaluation**: an expression whose parts are all real has a real value. -/
theorem hasRealValue_of_parts {o : PartOps R} (h : o.ZeroLaws) {e : Expr (Complex R)}
    (he : ∀ s ∈ e.parts, s.IsRealPart) : e.HasRealValue o := by
  induction e using inductionOnOperands with
  | step e ih =>
    have hself : e.IsRealPart := he e e.mem_parts_self
    refine hself.hasRealValue h fun a ha => ih a ha fun s hs => he s ?_
    exact mem_parts_of_mem_operands ha hs

/-- **Real arithmetic stays real.** An expression made of well-formed numerals, real constants,
groups, sums, differences, products, quotients, remainders, signs and factorials has a value with
imaginary part zero. It is so over any operations on the parts with the laws of zero, and doubles
are among them. -/
theorem eval_real :
    (∀ e : Expr Value, (∀ s ∈ e.parts, s.IsRealPart) → ∃ x, e.eval = .ok ⟨x, 0⟩) ∧
      (PartOps.double.ZeroLaws ∧ PartOps.double.arithmetic = (inferInstance : Arithmetic Value)) ∧
      ∀ {R : Type} [OfNat R 0] [Add R] [Sub R] [Mul R] [Div R] [BEq R] (o : PartOps R),
        o.ZeroLaws → ∀ e : Expr (Complex R), (∀ s ∈ e.parts, s.IsRealPart) →
          ∃ x, e.evalOver o = .ok ⟨x, 0⟩ := by
  refine ⟨fun e he => ?_, ⟨PartOps.double_zeroLaws, PartOps.arithmetic_double⟩,
    fun o h e he => hasRealValue_of_parts h he⟩
  obtain ⟨x, hx⟩ := hasRealValue_of_parts PartOps.double_zeroLaws he
  rw [evalOver, PartOps.arithmetic_double] at hx
  exact ⟨x, hx⟩

/-- The remainder and the factorial take `(1÷0)0` for a real number, although it is undefined. -/
theorem eval_real_undefined :
    let e : Expr Value := .trailing .factorial (.binary .modulo
      (.group [.binary .divide (.leaf (.digit 1)) (.leaf (.digit 0)), .leaf (.digit 0)])
      (.leaf (.constant .pi)))
    (∀ s ∈ e.parts, s.IsRealPart) ∧ ∃ x, e.eval = .ok ⟨x, 0⟩ := by
  intro e
  have he : ∀ s ∈ e.parts, s.IsRealPart := by
    simp [e, parts, partsAll, IsRealPart, PartOps.IsRealBinary]
  exact ⟨he, eval_real.1 e he⟩

end Expr

end Keypad
