import Keypad.Operation

/-! # Spellings of keys

Every key has one **display text**. Reading accepts the display texts and a few spellings that are
easier to type: `pi`, `-`, `*`, `·`, `/`, `%` and a decimal comma. The answer key is not in the
table, because its value belongs to whoever reads the text. -/

namespace Keypad

/-- The display text of an operator key. -/
def Operator.text : Operator → String
  | .plus => "+"
  | .minus => "−"
  | .times => "×"
  | .divide => "÷"
  | .power => "^"
  | .root => "√"
  | .modulo => "mod"
  | .factorial => "!"

/-- The name of a function. -/
def Function.text : Function → String
  | .sin => "sin"
  | .cos => "cos"
  | .tan => "tan"
  | .asin => "asin"
  | .acos => "acos"
  | .atan => "atan"
  | .sinh => "sinh"
  | .cosh => "cosh"
  | .tanh => "tanh"
  | .asinh => "asinh"
  | .acosh => "acosh"
  | .atanh => "atanh"
  | .log => "log"
  | .lg => "lg"
  | .ln => "ln"

/-- The display text of a binary operation is that of its key. -/
def BinaryOp.text (op : BinaryOp) : String := op.operator.text

/-- The display text of a leading operation is that of its key. -/
def PrefixOp.text (op : PrefixOp) : String := op.operator.text

/-- The display text of a trailing operation is that of its key. -/
def PostfixOp.text (op : PostfixOp) : String := op.operator.text

/-- The display text of a digit key: `?` for anything that is not a decimal digit. -/
def digitText (d : Nat) : String := if d ≤ 9 then d.repr else "?"

/-- The display text of a constant. -/
def Constant.text {V : Type} : Constant V → String
  | .pi => "π"
  | .e => "e"
  | .i => "i"
  | .answer _ => "Ans"

/-- The display text of a numeric key. -/
def Numeric.text {V : Type} : Numeric V → String
  | .digit d => digitText d
  | .point => "."
  | .constant c => c.text

namespace Key

variable {V : Type}

/-- The **display text** of a key. -/
def text : Key V → String
  | .digit d => digitText d
  | .point => "."
  | .constant c => c.text
  | .operator o => o.text
  | .opening => "("
  | .closing => ")"
  | .function f => f.text

/-- The display text of a sequence of keys: their texts with nothing in between. -/
def textOf (keys : List (Key V)) : String := String.join (keys.map text)

/-- No keys have the empty text. -/
@[simp] theorem textOf_nil : textOf ([] : List (Key V)) = "" := by
  rw [textOf, List.map_nil, String.join_nil]

/-- The text of keys begins with that of the first one. -/
@[simp] theorem textOf_cons (k : Key V) (ks : List (Key V)) :
    textOf (k :: ks) = k.text ++ textOf ks := by
  rw [textOf, List.map_cons, String.join_cons, textOf]

/-- Texts of key sequences are joined as the sequences are. -/
@[simp] theorem textOf_append (ks ls : List (Key V)) :
    textOf (ks ++ ls) = textOf ks ++ textOf ls := by
  rw [textOf, List.map_append, String.join_append, textOf, textOf]

/-- The keys and all their spellings, the answer key apart. -/
def spellings : List (String × Key V) :=
  ([(".", .point), (",", .point), ("(", .opening), (")", .closing),
    ("π", .constant .pi), ("pi", .constant .pi), ("e", .constant .e), ("i", .constant .i),
    ("-", .operator .minus), ("*", .operator .times), ("·", .operator .times),
    ("/", .operator .divide), ("%", .operator .modulo)] : List (String × Key V))
  ++ (List.range 10).map (fun d => (d.repr, .digit d))
  ++ Operator.all.map (fun o => (o.text, .operator o))
  ++ Function.all.map (fun f => (f.text, .function f))

/-- The key that a text spells. -/
def ofText? (text : String) : Option (Key V) := spellings.lookup text

/-- The text of an answer key does not show the answer. -/
@[simp] theorem text_map {W : Type} (f : V → W) (k : Key V) : (k.map f).text = k.text := by
  cases k with
  | constant c => cases c <;> rfl
  | _ => rfl

end Key

end Keypad
