/-! # Parser input

What a parser reads: an ordered input that gives up its front item, knows how much is left, and
counts how many nested parsers are at work on it. A **stream** is such an input over a list. -/

namespace Keypad

/-- An **input** `I` of items `τ`. -/
class Input (I : Type) (τ : outParam Type) where
  /-- The front item and the input after it, if there is one. -/
  next? : I → Option (τ × I)
  /-- The number of items not read yet. -/
  remaining : I → Nat
  /-- The number of nested parsers at work on this input. -/
  depth : I → Nat
  /-- The same place at another nesting depth. -/
  atDepth : I → Nat → I

/-- A **stream**: the items not read yet and the nesting depth. -/
structure Stream (τ : Type) where
  /-- The items not read yet, the front one first. -/
  items : List τ
  /-- The number of nested parsers at work. -/
  depth : Nat := 0
  deriving DecidableEq, Repr

namespace Stream

variable {τ : Type}

/-- The front item of a stream, and the stream after it at the same depth. -/
def next? : Stream τ → Option (τ × Stream τ)
  | ⟨[], _⟩ => none
  | ⟨t :: ts, d⟩ => some (t, ⟨ts, d⟩)

instance : Input (Stream τ) τ where
  next? := next?
  remaining s := s.items.length
  depth s := s.depth
  atDepth s d := { s with depth := d }

/-- An empty stream gives nothing. -/
@[simp] theorem next?_nil (d : Nat) : Input.next? (⟨[], d⟩ : Stream τ) = none := rfl

/-- A stream gives its first item and keeps its depth. -/
@[simp] theorem next?_cons (t : τ) (ts : List τ) (d : Nat) :
    Input.next? (⟨t :: ts, d⟩ : Stream τ) = some (t, ⟨ts, d⟩) := rfl

/-- What remains of a stream are its items. -/
@[simp] theorem remaining_eq (s : Stream τ) : Input.remaining s = s.items.length := rfl

/-- The depth of a stream as an input is the one it counts. -/
@[simp] theorem depth_eq (s : Stream τ) : Input.depth s = s.depth := rfl

/-- Another depth leaves the items as they are. -/
@[simp] theorem atDepth_eq (s : Stream τ) (d : Nat) : Input.atDepth s d = ⟨s.items, d⟩ := rfl

end Stream

end Keypad
