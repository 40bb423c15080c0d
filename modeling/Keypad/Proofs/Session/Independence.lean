import Keypad.Proofs.Grammar.Answers
import Keypad.Proofs.Lexeme.Answers
import Keypad.Session

/-! # The answer influences values only

Two sessions that differ in their answers understand every text in the same way. They read keys of
the same **shape**, which is all of a key except the value that an answer key carries, or stop with
the same error; the keys are parsed as trees of the same shape, or with the same error; and the
descriptions are the same. The answer has an influence only where its key was read: without one the
results are the same as well. -/

namespace Keypad

variable {V : Type}

/-- Results with the same image are the same error, or values with the same image. -/
theorem error_or_ok_of_map_eq {ε α β : Type} {f : α → β} {r r' : Except ε α}
    (h : r.map f = r'.map f) :
    (∃ e, r = .error e ∧ r' = .error e) ∨ ∃ a a', r = .ok a ∧ r' = .ok a' ∧ f a = f a' := by
  cases r with
  | error e =>
    cases r' with
    | error e' =>
      obtain rfl : e = e' := Except.error.inj h
      exact .inl ⟨e, rfl, rfl⟩
    | ok a' => cases h
  | ok a =>
    cases r' with
    | error e' => cases h
    | ok a' => exact .inr ⟨a, a', rfl, rfl, Except.ok.inj h⟩

/-! ## Shapes -/

/-- The **shape** of a key forgets the value that an answer key carries. -/
def Key.shape (k : Key V) : Key Unit := k.map fun _ => ()

/-- The **shape** of an expression forgets the values that answer keys carry. -/
def Expr.shape (e : Expr V) : Expr Unit := e.map fun _ => ()

/-- Keys of one shape are the same key, or both answer keys. -/
theorem Key.shape_eq_shape_iff {k k' : Key V} :
    k.shape = k'.shape ↔
      k = k' ∨ ∃ v v', k = .constant (.answer v) ∧ k' = .constant (.answer v') := by
  constructor
  · intro h
    cases k with
    | constant c =>
      cases k' with
      | constant c' => cases c <;> cases c' <;> simp_all [shape, map, Constant.map]
      | _ => cases h
    | _ =>
      cases k' <;> cases h
      exact .inl rfl
  · rintro (rfl | ⟨v, v', rfl, rfl⟩) <;> rfl

/-- Where there is no answer key the shapes tell everything. -/
theorem Key.eq_of_map_shape_eq {ks ks' : List (Key V)} (h : ks.map shape = ks'.map shape)
    (hanswer : ∀ v, .constant (.answer v) ∉ ks) : ks = ks' := by
  induction ks generalizing ks' with
  | nil => exact (List.map_eq_nil_iff.1 h.symm).symm
  | cons k ks ih =>
    obtain ⟨k', ks', rfl, hk, hks⟩ := List.map_eq_cons_iff.1 h.symm
    have hne : ∀ v, k ≠ .constant (.answer v) := fun v hv => hanswer v (hv ▸ List.mem_cons_self)
    have htail := ih hks.symm fun v hv => hanswer v (List.mem_cons_of_mem _ hv)
    rcases shape_eq_shape_iff.1 hk.symm with rfl | ⟨v, -, hv, -⟩
    · rw [htail]
    · exact absurd hv (hne v)

/-- The shape of a tree is found by parsing the shapes of the keys. -/
theorem Expr.ofKeys_shape (keys : List (Key V)) :
    (Expr.ofKeys keys).map Expr.shape = Expr.ofKeys (keys.map Key.shape) :=
  (Expr.ofKeys_map _ keys).symm

/-- The description of keys is that of their shapes. -/
theorem describe_shape (keys : List (Key V)) : describe (keys.map Key.shape) = describe keys :=
  describe_map _ keys

namespace Session

/-- The shapes of the keys that a session reads are found without its answer. -/
theorem read_shape (s : Session V) (text : String) :
    (s.read text).map (List.map Key.shape) = Key.read () text :=
  (Key.read_map _ s.answer text).symm

/-! ## Two sessions -/

variable [Arithmetic V]

/-- **Two sessions understand every text in the same way.** They have the same error of reading, and
then evaluate to it; or the keys have the same shapes, the trees have the same shape or parsing has
the same error, the descriptions are the same, and unless an answer key was read the results of
evaluating the text are the same. -/
theorem understands_independently (s₁ s₂ : Session V) (text : String) :
    (∃ e, s₁.read text = .error e ∧ s₂.read text = .error e ∧
        (s₁.eval text).1 = .error (.reading e) ∧ (s₂.eval text).1 = .error (.reading e)) ∨
      ∃ ks₁ ks₂, s₁.read text = .ok ks₁ ∧ s₂.read text = .ok ks₂ ∧
        ks₁.map Key.shape = ks₂.map Key.shape ∧
        (Expr.ofKeys ks₁).map Expr.shape = (Expr.ofKeys ks₂).map Expr.shape ∧
        describe ks₁ = describe ks₂ ∧
        ((∀ v, .constant (.answer v) ∉ ks₁) → (s₁.eval text).1 = (s₂.eval text).1) := by
  have hread := (read_shape s₁ text).trans (read_shape s₂ text).symm
  -- both sessions refuse the text alike, or read keys of the same shapes
  rcases error_or_ok_of_map_eq hread with ⟨e, h₁, h₂⟩ | ⟨ks₁, ks₂, h₁, h₂, hshape⟩
  · refine .inl ⟨e, h₁, h₂, ?_, ?_⟩
    · rw [eval_fst, value_of_read_error h₁]
    · rw [eval_fst, value_of_read_error h₂]
  · refine .inr ⟨ks₁, ks₂, h₁, h₂, hshape, ?_, ?_, fun hanswer => ?_⟩
    · rw [Expr.ofKeys_shape, Expr.ofKeys_shape, hshape]
    · rw [← describe_shape, hshape, describe_shape]
    · -- no answer key means the same keys, and the results depend on nothing else
      obtain rfl := Key.eq_of_map_shape_eq hshape hanswer
      rw [eval_fst, eval_fst, value_of_read_ok h₁, value_of_read_ok h₂]

end Session

end Keypad
