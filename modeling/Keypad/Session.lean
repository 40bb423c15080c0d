import Keypad.Calculation

/-! # Sessions

A session remembers the **answer**, the value of the last calculation that had one. The answer key
stands for it in the next text. -/

namespace Keypad

/-- A **session**: the last answer. -/
structure Session (V : Type) where
  answer : V
  deriving DecidableEq, Repr

namespace Session

variable {V : Type}

/-- Sets the answer. -/
def setAnswer (_ : Session V) (v : V) : Session V := ⟨v⟩

/-- Reads a text as keys; the answer key stands for the last answer. -/
def read (s : Session V) (text : String) : Except ReadError (List (Key V)) :=
  Key.read s.answer text

/-- An answer that was set is held. -/
@[simp] theorem answer_setAnswer (s : Session V) (v : V) : (s.setAnswer v).answer = v := rfl

variable [Arithmetic V]

/-- A new session, whose answer is zero. -/
def fresh : Session V := ⟨Arithmetic.zero⟩

/-- The value of a text in a session. -/
def value (s : Session V) (text : String) : Except (CalcError V) V :=
  match s.read text with
  | .error e => .error (.reading e)
  | .ok keys => calculate keys

/-- A text that cannot be read has no value, for the reason that reading gives. -/
theorem value_of_read_error {s : Session V} {text : String} {e : ReadError}
    (h : s.read text = .error e) : s.value text = .error (.reading e) := by
  rw [value, h]

/-- The value of a text is that of its keys. -/
theorem value_of_read_ok {s : Session V} {text : String} {keys : List (Key V)}
    (h : s.read text = .ok keys) : s.value text = calculate keys := by
  rw [value, h]

/-- **Evaluates** a text. Its value becomes the answer; an error leaves the session as it was. -/
def eval (s : Session V) (text : String) : Except (CalcError V) V × Session V :=
  match s.value text with
  | .error e => (.error e, s)
  | .ok v => (.ok v, s.setAnswer v)

/-- The result of an evaluation is the value of the text. -/
@[simp] theorem eval_fst (s : Session V) (text : String) : (s.eval text).1 = s.value text := by
  unfold eval
  split <;> simp_all

/-- A text that has a value gives it, and it becomes the answer. -/
theorem eval_of_ok {s : Session V} {text : String} {v : V} (h : s.value text = .ok v) :
    s.eval text = (.ok v, s.setAnswer v) := by
  rw [eval, h]

/-- A text without a value leaves the session **as it was**. -/
theorem eval_of_error {s : Session V} {text : String} {e : CalcError V}
    (h : s.value text = .error e) : s.eval text = (.error e, s) := by
  rw [eval, h]

end Session

end Keypad
