import Keypad.Key

/-! # Operations

What an operator key does, by its position: **binary** between two operands, **leading** before
its operand, **trailing** after it. Each operation has a tier and belongs to one key. -/

namespace Keypad

/-- **Binary operations.** -/
inductive BinaryOp where
  | add | subtract | multiply | divide | power
  /-- In `a√b` the index comes first and the radicand second. -/
  | root
  | modulo
  deriving DecidableEq, Repr

/-- **Leading operations**, written before their operand. -/
inductive PrefixOp where
  | plus | negate | squareRoot
  deriving DecidableEq, Repr

/-- **Trailing operations**, written after their operand. -/
inductive PostfixOp where
  | factorial
  deriving DecidableEq, Repr

/-! ## The meanings of an operator key -/

namespace Operator

/-- The meaning of the key between two operands. -/
def binary? : Operator → Option BinaryOp
  | .plus => some .add
  | .minus => some .subtract
  | .times => some .multiply
  | .divide => some .divide
  | .power => some .power
  | .root => some .root
  | .modulo => some .modulo
  | .factorial => none

/-- The meaning of the key before its operand. -/
def leading? : Operator → Option PrefixOp
  | .plus => some .plus
  | .minus => some .negate
  | .root => some .squareRoot
  | _ => none

/-- The meaning of the key after its operand. -/
def trailing? : Operator → Option PostfixOp
  | .factorial => some .factorial
  | _ => none

end Operator

/-! ## Tiers and keys of operations -/

namespace BinaryOp

/-- The tier at which the operation binds. -/
def tier : BinaryOp → Tier
  | .add | .subtract => .low
  | .multiply | .divide => .middle
  | .power | .root | .modulo => .high

/-- The key that writes the operation. -/
def operator : BinaryOp → Operator
  | .add => .plus
  | .subtract => .minus
  | .multiply => .times
  | .divide => .divide
  | .power => .power
  | .root => .root
  | .modulo => .modulo

/-- The key of a binary operation is read as that operation. -/
@[simp] theorem binary?_operator (op : BinaryOp) : op.operator.binary? = some op := by
  cases op <;> rfl

end BinaryOp

namespace PrefixOp

/-- The tier at which the operation binds. -/
def tier : PrefixOp → Tier
  | .plus | .negate => .low
  | .squareRoot => .high

/-- The key that writes the operation. -/
def operator : PrefixOp → Operator
  | .plus => .plus
  | .negate => .minus
  | .squareRoot => .root

/-- The key of a leading operation is read as that operation. -/
@[simp] theorem leading?_operator (op : PrefixOp) : op.operator.leading? = some op := by
  cases op <;> rfl

end PrefixOp

namespace PostfixOp

/-- The tier at which the operation binds. -/
def tier : PostfixOp → Tier
  | .factorial => .high

/-- The key that writes the operation. -/
def operator : PostfixOp → Operator
  | .factorial => .factorial

/-- The key of a trailing operation is read as that operation. -/
@[simp] theorem trailing?_operator (op : PostfixOp) : op.operator.trailing? = some op := by
  cases op; rfl

end PostfixOp

namespace Key

variable {V : Type}

/-- The key read as a binary operation. -/
def binary? (k : Key V) : Option BinaryOp := k.operator?.bind Operator.binary?

/-- The key read as a leading operation. -/
def leading? (k : Key V) : Option PrefixOp := k.operator?.bind Operator.leading?

/-- The key read as a trailing operation. -/
def trailing? (k : Key V) : Option PostfixOp := k.operator?.bind Operator.trailing?

/-- Replacing an answer does not make or change a binary operation. -/
@[simp] theorem binary?_map {W : Type} (f : V → W) (k : Key V) :
    (k.map f).binary? = k.binary? := by
  simp [binary?]

/-- Replacing an answer does not make or change a leading operation. -/
@[simp] theorem leading?_map {W : Type} (f : V → W) (k : Key V) :
    (k.map f).leading? = k.leading? := by
  simp [leading?]

/-- Replacing an answer does not make or change a trailing operation. -/
@[simp] theorem trailing?_map {W : Type} (f : V → W) (k : Key V) :
    (k.map f).trailing? = k.trailing? := by
  simp [trailing?]

end Key

end Keypad
