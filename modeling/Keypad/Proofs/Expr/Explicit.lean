import Keypad.Expr.Evaluation

/-! # Explicit expressions

The description of an expression brackets every operation and writes implicit products with their
sign. Read as an expression of its own it therefore has another tree: operands are groups of one
factor, and a product of several factors is a chain of operations. In any arithmetic where one is
neutral from the left that tree has the same value or the same error. -/

namespace Keypad.Expr

variable {V : Type}

/-- The **product** of some factors, with its sign between them. -/
def product : List (Expr V) → Expr V
  | [] => .group []
  | e :: es => es.foldl (fun lhs rhs => .binary .multiply lhs (.group [rhs])) (.group [e])

mutual

/-- The **explicit** form of an expression: every operand is in brackets and no product of several
factors is implicit. -/
def explicit : Expr V → Expr V
  | .leaf n => .leaf n
  | .number n => .number n
  | .group es => product (explicitAll es)
  | .binary op lhs rhs => .binary op (.group [explicit lhs]) (.group [explicit rhs])
  | .leading op rhs => .leading op (.group [explicit rhs])
  | .trailing op lhs => .trailing op (.group [explicit lhs])
  | .apply f arg => .apply f (.group [explicit arg])

/-- The explicit forms of some expressions. -/
def explicitAll : List (Expr V) → List (Expr V)
  | [] => []
  | e :: es => explicit e :: explicitAll es

end

/-- A further factor is multiplied onto the product of those before it. -/
theorem product_append {es : List (Expr V)} (hes : es ≠ []) (e : Expr V) :
    product (es ++ [e]) = .binary .multiply (product es) (.group [e]) := by
  obtain ⟨e', es', rfl⟩ := List.exists_cons_of_ne_nil hes
  rw [List.cons_append, product, product, List.foldl_append, List.foldl_cons, List.foldl_nil]

/-- Making products explicit respects joining them. -/
theorem explicitAll_append (es es' : List (Expr V)) :
    explicitAll (es ++ es') = explicitAll es ++ explicitAll es' := by
  induction es with
  | nil => rfl
  | cons e es ih => rw [List.cons_append, explicitAll, explicitAll, ih, List.cons_append]

/-! ## Values -/

section Evaluation

variable [Arithmetic V]

/-- A binary operation evaluates its operands from left to right. -/
theorem eval_binary (op : BinaryOp) (lhs rhs : Expr V) :
    (binary op lhs rhs).eval =
      lhs.eval.bind fun v => rhs.eval.bind fun w => Arithmetic.binary op v w := rfl

/-- A leading operation evaluates its operand first. -/
theorem eval_leading (op : PrefixOp) (rhs : Expr V) :
    (leading op rhs).eval = rhs.eval.bind fun v => Arithmetic.leading op v := rfl

/-- A trailing operation evaluates its operand first. -/
theorem eval_trailing (op : PostfixOp) (lhs : Expr V) :
    (trailing op lhs).eval = lhs.eval.bind fun v => Arithmetic.trailing op v := rfl

/-- A function evaluates its argument first, and refuses nothing. -/
theorem eval_apply (f : Function) (arg : Expr V) :
    (apply f arg).eval = arg.eval.bind fun v => .ok (Arithmetic.function f v) := rfl

/-- Brackets around a single factor multiply its value by one. -/
theorem eval_group_one (e : Expr V) :
    (group [e]).eval = e.eval.map (Arithmetic.multiply Arithmetic.one) := by
  rw [eval, evalProduct]
  cases e.eval <;> rfl

/-- Where one is neutral, brackets around a single factor make no difference. -/
theorem eval_group_singleton (hone : ∀ x : V, Arithmetic.multiply Arithmetic.one x = x)
    (e : Expr V) : (group [e]).eval = e.eval := by
  rw [eval_group_one]
  cases e.eval with
  | error err => rfl
  | ok v => exact congrArg Except.ok (hone v)

/-- Multiplying with the sign goes on from a value as multiplying without it does. -/
theorem eval_foldl (hone : ∀ x : V, Arithmetic.multiply Arithmetic.one x = x)
    (es : List (Expr V)) (lhs : Expr V) :
    (es.foldl (fun lhs rhs => .binary .multiply lhs (.group [rhs])) lhs).eval =
      lhs.eval.bind fun v => evalProduct v es := by
  -- the product so far is the left operand, which every factor changes
  induction es generalizing lhs with
  | nil =>
    rw [List.foldl_nil]
    cases lhs.eval <;> rfl
  | cons e es ih =>
    rw [List.foldl_cons, ih, eval_binary, eval_group_singleton hone]
    cases lhs.eval with
    | error err => rfl
    | ok v =>
      -- what is left is one step of either product
      simp only [Except.bind, bind, evalProduct]
      cases e.eval with
      | error err => rfl
      | ok w => simp only [Arithmetic.binary_multiply]

/-- Writing the sign of a product makes no difference. -/
theorem eval_product (hone : ∀ x : V, Arithmetic.multiply Arithmetic.one x = x)
    (es : List (Expr V)) : (product es).eval = (group es).eval := by
  cases es with
  | nil => rfl
  | cons e es =>
    rw [product, eval_foldl hone, eval_group_singleton hone, eval, evalProduct]
    cases e.eval with
    | error err => rfl
    | ok v =>
      show evalProduct v es = evalProduct (Arithmetic.multiply Arithmetic.one v) es
      rw [hone]

mutual

/-- **The explicit form has the same value** or the same error. -/
theorem eval_explicit (hone : ∀ x : V, Arithmetic.multiply Arithmetic.one x = x) :
    (e : Expr V) → e.explicit.eval = e.eval
  | .leaf n => rfl
  | .number n => rfl
  | .group es => by
    rw [explicit, eval_product hone, eval, eval, evalProduct_explicitAll hone es]
  | .binary op lhs rhs => by
    rw [explicit, eval_binary, eval_binary, eval_group_singleton hone, eval_group_singleton hone,
      eval_explicit hone lhs, eval_explicit hone rhs]
  | .leading op rhs => by
    rw [explicit, eval_leading, eval_leading, eval_group_singleton hone, eval_explicit hone rhs]
  | .trailing op lhs => by
    rw [explicit, eval_trailing, eval_trailing, eval_group_singleton hone, eval_explicit hone lhs]
  | .apply f arg => by
    rw [explicit, eval_apply, eval_apply, eval_group_singleton hone, eval_explicit hone arg]

/-- The factors of a product may be made explicit one by one. -/
theorem evalProduct_explicitAll (hone : ∀ x : V, Arithmetic.multiply Arithmetic.one x = x) :
    (es : List (Expr V)) → ∀ v : V,
    evalProduct v (explicitAll es) = evalProduct v es
  | [], _ => rfl
  | e :: es, v => by
    rw [explicitAll, evalProduct, evalProduct, eval_explicit hone e]
    cases e.eval with
    | error err => rfl
    | ok w => exact evalProduct_explicitAll hone es (Arithmetic.multiply v w)

end

end Evaluation

end Keypad.Expr
