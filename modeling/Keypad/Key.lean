/-! # Keys of a calculator keyboard

The closed vocabulary of the calculator: digits, the decimal point, constants, operators, brackets
and functions. A key is parametrised by the type `V` of values, because the **answer** key carries
the value it stands for. The views at the end say in which role a key may be read. -/

namespace Keypad

/-- **Binding strength** of an operator, from the loosest to the tightest. -/
inductive Tier where
  /-- Addition and subtraction. -/
  | low
  /-- Multiplication and division. -/
  | middle
  /-- Powers, roots, remainders and factorials. -/
  | high
  deriving DecidableEq, Repr

/-- The next tighter tier; there is none above `high`. -/
def Tier.higher? : Tier → Option Tier
  | .low => some .middle
  | .middle => some .high
  | .high => none

/-- **Symbolic constants.** -/
inductive Constant (V : Type) where
  /-- The ratio of a circle's circumference to its diameter. -/
  | pi
  /-- The base of the natural logarithm. -/
  | e
  /-- The imaginary unit. -/
  | i
  /-- The result of an earlier calculation. -/
  | answer (value : V)
  deriving DecidableEq, Repr

/-- **Operator keys.** A key may act in more than one position: minus subtracts or negates, and
the root sign is either `a√b` or `√b`. -/
inductive Operator where
  | plus | minus | times | divide | power | root | modulo | factorial
  deriving DecidableEq, Repr

/-- All operator keys. -/
def Operator.all : List Operator :=
  [.plus, .minus, .times, .divide, .power, .root, .modulo, .factorial]

/-- **Named functions** of one argument. -/
inductive Function where
  | sin | cos | tan | asin | acos | atan
  | sinh | cosh | tanh | asinh | acosh | atanh
  /-- The logarithm to base ten. -/
  | log
  /-- The logarithm to base two. -/
  | lg
  /-- The natural logarithm. -/
  | ln
  deriving DecidableEq, Repr

/-- All functions. -/
def Function.all : List Function :=
  [.sin, .cos, .tan, .asin, .acos, .atan, .sinh, .cosh, .tanh, .asinh, .acosh, .atanh,
    .log, .lg, .ln]

/-- **A single key.** Only the digits `0` to `9` are on the keyboard; a larger one is shown as `?`
and has no value. -/
inductive Key (V : Type) where
  | digit (d : Nat)
  | point
  | constant (c : Constant V)
  | operator (o : Operator)
  | opening
  | closing
  | function (f : Function)
  deriving DecidableEq, Repr

/-- **Numeric keys**: those that stand for a number or a part of one. -/
inductive Numeric (V : Type) where
  | digit (d : Nat)
  | point
  | constant (c : Constant V)
  deriving DecidableEq, Repr

/-! ## Changing the answer -/

/-- Replaces the value an answer key carries. -/
def Constant.map {V W : Type} (f : V → W) : Constant V → Constant W
  | .pi => .pi
  | .e => .e
  | .i => .i
  | .answer v => .answer (f v)

/-- Replaces the value an answer key carries; every other key stays as it is. -/
def Key.map {V W : Type} (f : V → W) : Key V → Key W
  | .digit d => .digit d
  | .point => .point
  | .constant c => .constant (c.map f)
  | .operator o => .operator o
  | .opening => .opening
  | .closing => .closing
  | .function g => .function g

/-- Replaces the value an answer key carries. -/
def Numeric.map {V W : Type} (f : V → W) : Numeric V → Numeric W
  | .digit d => .digit d
  | .point => .point
  | .constant c => .constant (c.map f)

/-! ## Views -/

namespace Numeric

variable {V : Type}

/-- Digits and the point build numerals. -/
def isNumeral : Numeric V → Bool
  | .digit _ => true
  | .point => true
  | .constant _ => false

/-- Constants stand alone. -/
def isConstant : Numeric V → Bool
  | .constant _ => true
  | _ => false

end Numeric

namespace Key

variable {V : Type}

/-- The key read as a number or a part of one. -/
def numeric? : Key V → Option (Numeric V)
  | .digit d => some (.digit d)
  | .point => some .point
  | .constant c => some (.constant c)
  | _ => none

/-- The key read as an operator. -/
def operator? : Key V → Option Operator
  | .operator o => some o
  | _ => none

/-- The key read as a function. -/
def function? : Key V → Option Function
  | .function f => some f
  | _ => none

/-- The key read as an opening bracket. -/
def opening? : Key V → Option Unit
  | .opening => some ()
  | _ => none

/-- The key read as a closing bracket. -/
def closing? : Key V → Option Unit
  | .closing => some ()
  | _ => none

/-- Replacing an answer keeps what kind of number a key is. -/
@[simp] theorem numeric?_map {W : Type} (f : V → W) (k : Key V) :
    (k.map f).numeric? = k.numeric?.map (Numeric.map f) := by
  cases k <;> rfl

/-- Replacing an answer does not make or change an operator key. -/
@[simp] theorem operator?_map {W : Type} (f : V → W) (k : Key V) :
    (k.map f).operator? = k.operator? := by
  cases k <;> rfl

/-- Replacing an answer does not make or change a function key. -/
@[simp] theorem function?_map {W : Type} (f : V → W) (k : Key V) :
    (k.map f).function? = k.function? := by
  cases k <;> rfl

/-- Replacing an answer does not make an opening bracket. -/
@[simp] theorem opening?_map {W : Type} (f : V → W) (k : Key V) :
    (k.map f).opening? = k.opening? := by
  cases k <;> rfl

/-- Replacing an answer does not make a closing bracket. -/
@[simp] theorem closing?_map {W : Type} (f : V → W) (k : Key V) :
    (k.map f).closing? = k.closing? := by
  cases k <;> rfl

end Key

end Keypad
