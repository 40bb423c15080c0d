import Keypad.Key.Spelling
import Keypad.Numeral

/-! # Expressions

The tree of an expression. Brackets leave no mark of their own: what stood between them is one
factor of a **group**, and a group is a product of factors written next to each other. The
**description** of an expression shows the whole tree: every operation and every group is bracketed
and the products that were implicit are written with `*`. -/

namespace Keypad

/-- **Expressions** over values `V`. -/
inductive Expr (V : Type) where
  /-- A single digit or a constant. -/
  | leaf (n : Numeric V)
  /-- A numeral of several keys. -/
  | number (n : Numeral)
  /-- Factors written next to each other. -/
  | group (factors : List (Expr V))
  /-- An operation between two operands. -/
  | binary (op : BinaryOp) (lhs rhs : Expr V)
  /-- An operation before its operand. -/
  | leading (op : PrefixOp) (rhs : Expr V)
  /-- An operation after its operand. -/
  | trailing (op : PostfixOp) (lhs : Expr V)
  /-- A function of a bracketed argument. -/
  | apply (f : Function) (arg : Expr V)
  deriving Repr

namespace Expr

variable {V : Type}

mutual

/-- The **description** of an expression: its text with every operation and group in brackets. -/
def describe : Expr V → String
  | .leaf n => n.text
  | .number n => n.text
  | .group factors => "(" ++ String.intercalate "*" (describeAll factors) ++ ")"
  | .binary op lhs rhs => "(" ++ describe lhs ++ op.text ++ describe rhs ++ ")"
  | .leading op rhs => "(" ++ op.text ++ describe rhs ++ ")"
  | .trailing op lhs => "(" ++ describe lhs ++ op.text ++ ")"
  | .apply f arg => f.text ++ "(" ++ describe arg ++ ")"

/-- The descriptions of some expressions. -/
def describeAll : List (Expr V) → List String
  | [] => []
  | e :: es => describe e :: describeAll es

end

mutual

/-- Replaces the values that answer keys carry. -/
def map {W : Type} (f : V → W) : Expr V → Expr W
  | .leaf n => .leaf (n.map f)
  | .number n => .number n
  | .group factors => .group (mapAll f factors)
  | .binary op lhs rhs => .binary op (map f lhs) (map f rhs)
  | .leading op rhs => .leading op (map f rhs)
  | .trailing op lhs => .trailing op (map f lhs)
  | .apply g arg => .apply g (map f arg)

/-- Replaces the values that answer keys carry in some expressions. -/
def mapAll {W : Type} (f : V → W) : List (Expr V) → List (Expr W)
  | [] => []
  | e :: es => map f e :: mapAll f es

end

/-- Describing factors is describing each of them. -/
@[simp] theorem describeAll_eq_map (es : List (Expr V)) : describeAll es = es.map describe := by
  induction es with
  | nil => rfl
  | cons e es ih => rw [describeAll, ih, List.map_cons]

/-- Replacing the answers of factors is replacing those of each of them. -/
@[simp] theorem mapAll_eq_map {W : Type} (f : V → W) (es : List (Expr V)) :
    mapAll f es = es.map (map f) := by
  induction es with
  | nil => rfl
  | cons e es ih => rw [mapAll, ih, List.map_cons]

end Expr

end Keypad
