import Keypad.Complex.Arithmetic
import Keypad.Proofs.Complex.Exact
import Keypad.Proofs.Grammar.Phrase

/-! # What an expression denotes

An expression **denotes** a rational complex number if that is its value in exact arithmetic. The
expressions considered here also have a value in double precision, whether or not it is close: they
are made of numerals, the imaginary unit, sums, differences, products, powers and negations, none of
which refuses its operands. -/

namespace Keypad

namespace Expr

/-- The exact value of an expression. The values of answer keys are not looked at. -/
def exact {V : Type} (e : Expr V) : Except (EvalError Exact) Exact :=
  (e.map fun _ => Exact.unknown).eval

/-- An expression **denotes** a rational complex number if that is its exact value and it has a
value in double precision. -/
structure Denotes (e : Expr Value) (z : Complex Rat) : Prop where
  exact : e.exact = .ok (some z)
  total : ∃ v, e.eval = .ok v

/-! ## Numerals and constants -/

section Numeral

variable {V : Type} [Arithmetic V]

/-- A numeral has the value of its digits, also if it is a single digit. -/
theorem eval_numeralTree {n : Numeral} {whole fraction : List Nat} (hpoint : n ≠ [none])
    (hread : n.read = .ok (whole, fraction)) :
    (Grammar.numeralTree n : Expr V).eval = .ok (Arithmetic.decimal whole fraction) := by
  have hvalue : (n.value : Except NumeralError V) = .ok (Arithmetic.decimal whole fraction) := by
    rw [Numeral.value, hread]
    rfl
  match n with
  | [none] => exact absurd rfl hpoint
  | [] => exact congrArg (Except.mapError EvalError.numeral) hvalue
  | [some d] => exact congrArg (Except.mapError EvalError.numeral) hvalue
  | some d :: k :: n => exact congrArg (Except.mapError EvalError.numeral) hvalue
  | none :: k :: n => exact congrArg (Except.mapError EvalError.numeral) hvalue

end Numeral

/-- A numeral holds no answers to replace. -/
theorem map_numeralTree {V W : Type} (f : V → W) (n : Numeral) :
    (Grammar.numeralTree n : Expr V).map f = Grammar.numeralTree n := by
  match n with
  | [] => rfl
  | [none] => rfl
  | [some d] => rfl
  | some d :: k :: n => rfl
  | none :: k :: n => rfl

/-- A numeral **denotes** the value of its digits. -/
theorem denotes_numeral {n : Numeral} {whole fraction : List Nat} (hpoint : n ≠ [none])
    (hread : n.read = .ok (whole, fraction)) :
    Denotes (Grammar.numeralTree n) ⟨decimalValue whole fraction, 0⟩ := by
  refine ⟨?_, _, eval_numeralTree hpoint hread⟩
  rw [Expr.exact, map_numeralTree, eval_numeralTree hpoint hread]
  rfl

/-- The imaginary unit denotes itself. -/
theorem denotes_unit : Denotes (.leaf (.constant .i)) ⟨0, 1⟩ := ⟨rfl, _, rfl⟩

/-! ## Products -/

/-- Nothing denotes the neutral number. -/
theorem denotes_group_nil : Denotes (.group []) ⟨1, 0⟩ := ⟨rfl, _, rfl⟩

/-- A further factor is evaluated last and multiplied to the product of those before. -/
theorem evalProduct_append {V : Type} [Arithmetic V] (v : V) (es : List (Expr V)) (e : Expr V) :
    evalProduct v (es ++ [e]) = (evalProduct v es).bind fun w =>
      e.eval.bind fun x => .ok (Arithmetic.multiply w x) := by
  induction es generalizing v with
  | nil => rfl
  | cons e' es ih =>
    rw [List.cons_append, evalProduct, evalProduct]
    cases e'.eval with
    | error err => rfl
    | ok x => exact ih (Arithmetic.multiply v x)

/-- A further factor multiplies what the group denotes. -/
theorem Denotes.group_append {es : List (Expr Value)} {e : Expr Value} {z w : Complex Rat}
    (hes : Denotes (.group es) z) (he : Denotes e w) : Denotes (.group (es ++ [e])) (z * w) := by
  obtain ⟨hexact, v, hv⟩ := hes
  obtain ⟨hexact', x, hx⟩ := he
  refine ⟨?_, Arithmetic.multiply v x, ?_⟩
  · rw [Expr.exact, map, mapAll_eq_map, eval] at hexact ⊢
    rw [Expr.exact] at hexact'
    rw [List.map_append, List.map_cons, List.map_nil, evalProduct_append, hexact, hexact']
    rfl
  · rw [eval] at hv ⊢
    rw [evalProduct_append, hv, hx]
    rfl

/-- A single factor denotes what its group does. -/
theorem Denotes.group_singleton {e : Expr Value} {z : Complex Rat} (he : Denotes e z) :
    Denotes (.group [e]) z := by
  have h := denotes_group_nil.group_append he
  rw [Complex.one_mul] at h
  exact h

/-! ## Operations -/

/-- An operation that refuses no operands denotes its exact result. -/
theorem Denotes.binary {op : BinaryOp} {lhs rhs : Expr Value} {z w u : Complex Rat}
    (hlhs : Denotes lhs z) (hrhs : Denotes rhs w)
    (hexact : Exact.binary op (some z) (some w) = .ok (some u))
    (htotal : ∀ v v' : Value, ∃ x, Complex.binary op v v' = .ok x) :
    Denotes (.binary op lhs rhs) u := by
  obtain ⟨hlhs, v, hv⟩ := hlhs
  obtain ⟨hrhs, v', hv'⟩ := hrhs
  obtain ⟨x, hx⟩ := htotal v v'
  refine ⟨?_, x, ?_⟩
  · rw [Expr.exact] at hlhs hrhs ⊢
    rw [map, eval, hlhs, hrhs]
    exact hexact
  · rw [eval, hv, hv']
    exact hx

/-- Sums denote sums. -/
theorem Denotes.add {lhs rhs : Expr Value} {z w : Complex Rat} (hlhs : Denotes lhs z)
    (hrhs : Denotes rhs w) : Denotes (.binary .add lhs rhs) (z + w) :=
  hlhs.binary hrhs rfl fun _ _ => ⟨_, rfl⟩

/-- Differences denote differences. -/
theorem Denotes.subtract {lhs rhs : Expr Value} {z w : Complex Rat} (hlhs : Denotes lhs z)
    (hrhs : Denotes rhs w) : Denotes (.binary .subtract lhs rhs) (z - w) :=
  hlhs.binary hrhs rfl fun _ _ => ⟨_, rfl⟩

/-- Products denote products. -/
theorem Denotes.multiply {lhs rhs : Expr Value} {z w : Complex Rat} (hlhs : Denotes lhs z)
    (hrhs : Denotes rhs w) : Denotes (.binary .multiply lhs rhs) (z * w) :=
  hlhs.binary hrhs rfl fun _ _ => ⟨_, rfl⟩

/-- A whole power of a real number other than zero. -/
theorem Denotes.power {base exponent : Expr Value} {r : Rat} {n : Int} (hr : r ≠ 0)
    (hbase : Denotes base ⟨r, 0⟩) (hexponent : Denotes exponent ⟨n, 0⟩) :
    Denotes (.binary .power base exponent) ⟨r ^ n, 0⟩ :=
  hbase.binary hexponent (congrArg Except.ok (Complex.exactPow_real hr n)) fun _ _ => ⟨_, rfl⟩

/-- Negations denote negations. -/
theorem Denotes.negate {rhs : Expr Value} {z : Complex Rat} (hrhs : Denotes rhs z) :
    Denotes (.leading .negate rhs) (-z) := by
  obtain ⟨hrhs, v, hv⟩ := hrhs
  refine ⟨?_, Complex.zero - v, ?_⟩
  · rw [Expr.exact] at hrhs ⊢
    rw [map, eval, hrhs]
    rfl
  · rw [eval, hv]
    rfl

end Expr

end Keypad
