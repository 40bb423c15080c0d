import Keypad.Parser.Input

/-! # Cursors

A **cursor** is an input that shares all its items with every other place in them and counts how far
it has got. Only a cursor that is **in range** has not got further than its last item: then the
items that remain are those from its position on. -/

namespace Keypad

/-- A **cursor**: all items of an input, the position of the front one and the nesting depth. -/
structure Cursor (τ : Type) where
  /-- All items, those already read included. -/
  items : List τ
  /-- The number of items already read. -/
  position : Nat := 0
  /-- The number of nested parsers at work. -/
  depth : Nat := 0
  deriving DecidableEq, Repr

namespace Cursor

variable {τ : Type}

/-- The item at the position, and the cursor behind it. -/
def next? (c : Cursor τ) : Option (τ × Cursor τ) :=
  match c.items[c.position]? with
  | some t => some (t, { c with position := c.position + 1 })
  | none => none

/-- The number of items not read yet; the subtraction is exact on a cursor in range. -/
def remaining (c : Cursor τ) : Nat := c.items.length - c.position

instance : Input (Cursor τ) τ where
  next? := next?
  remaining := remaining
  depth c := c.depth
  atDepth c d := { c with depth := d }

/-- A cursor is **in range** if its position is not behind the end of its items. -/
def InRange (c : Cursor τ) : Prop := c.position ≤ c.items.length

instance (c : Cursor τ) : Decidable c.InRange := Nat.decLe _ _

/-- The items not read yet, as the stream that a cursor stands for. -/
def stream (c : Cursor τ) : Stream τ := ⟨c.items.drop c.position, c.depth⟩

/-- The depth of a cursor as an input is the one it counts. -/
@[simp] theorem depth_eq (c : Cursor τ) : Input.depth c = c.depth := rfl

/-- Another depth leaves the items and the position as they are. -/
@[simp] theorem atDepth_eq (c : Cursor τ) (d : Nat) :
    Input.atDepth c d = { c with depth := d } := rfl

/-- What remains of a cursor as an input is what is not read yet. -/
@[simp] theorem remaining_eq (c : Cursor τ) : Input.remaining c = c.remaining := rfl

/-- Reading an item moves the position by one and changes nothing else. -/
theorem next?_eq_some_iff {c rest : Cursor τ} {t : τ} :
    Input.next? c = some (t, rest) ↔
      c.items[c.position]? = some t ∧ rest = { c with position := c.position + 1 } := by
  show next? c = some (t, rest) ↔ _
  unfold next?
  split
  · next u hu => simp [hu, eq_comm]
  · next hn => simp [hn]

end Cursor

end Keypad
