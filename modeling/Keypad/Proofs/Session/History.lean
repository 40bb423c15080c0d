import Keypad.Proofs.Lexeme.DisplayText

/-! # The history of a session

A session is used by **calls**: texts are evaluated and answers are set, in any order and number.
The answer that a session holds after some calls is the last value that one of them had; calls that
failed, at whatever stage, are as if they had not been made. The next text is read with that answer
in place of every answer key. -/

namespace Keypad

variable {V : Type}

/-- A **call** on a session. -/
inductive Call (V : Type) where
  /-- Evaluates a text. -/
  | eval (text : String)
  /-- Sets the answer. -/
  | setAnswer (v : V)
  deriving DecidableEq, Repr

namespace Session

/-- Every answer key that a session reads carries its answer. -/
theorem answer_of_read {s : Session V} {v : V} {text : String} {keys : List (Key V)}
    (h : s.read text = .ok keys) (hv : .constant (.answer v) ∈ keys) : v = s.answer :=
  (Lexeme.typable_of_munch ((Lexeme.read_by_words s.answer text).symm.trans h)).2 v hv

variable [Arithmetic V]

/-! ## Calls -/

/-- The value that a call has, or the error. -/
def result (s : Session V) : Call V → Except (CalcError V) V
  | .eval text => (s.eval text).1
  | .setAnswer v => .ok v

/-- The session after a call. -/
def perform (s : Session V) : Call V → Session V
  | .eval text => (s.eval text).2
  | .setAnswer v => s.setAnswer v

/-- A call that has a value makes it the answer. -/
theorem perform_of_ok {s : Session V} {c : Call V} {v : V} (h : s.result c = .ok v) :
    s.perform c = ⟨v⟩ := by
  cases c with
  | eval text =>
    rw [result, eval_fst] at h
    rw [perform, eval_of_ok h, setAnswer]
  | setAnswer w =>
    obtain rfl := Except.ok.inj h
    rfl

/-- A call that has an error leaves the session as it was. -/
theorem perform_of_error {s : Session V} {c : Call V} {e : CalcError V}
    (h : s.result c = .error e) : s.perform c = s := by
  cases c with
  | eval text =>
    rw [result, eval_fst] at h
    rw [perform, eval_of_error h]
  | setAnswer w => cases h

/-! ## Histories -/

/-- The session **after** some calls. -/
def after (s : Session V) (calls : List (Call V)) : Session V := calls.foldl perform s

/-- The **results** of some calls, each made on the session after those before it. -/
def results (s : Session V) : List (Call V) → List (Except (CalcError V) V)
  | [] => []
  | c :: calls => s.result c :: (s.perform c).results calls

/-- The answer after some calls is the last value that one of them had. -/
theorem answer_after_eq_getLastD (s : Session V) (calls : List (Call V)) :
    (s.after calls).answer = ((s.results calls).filterMap Except.toOption).getLastD s.answer := by
  induction calls generalizing s with
  | nil => rfl
  | cons c calls ih =>
    have hcons : s.after (c :: calls) = (s.perform c).after calls := rfl
    rw [hcons, ih, results]
    cases h : s.result c with
    | ok v => simp only [perform_of_ok h, List.filterMap_cons, Except.toOption, List.getLastD_cons]
    | error e => simp only [perform_of_error h, List.filterMap_cons, Except.toOption]

/-- **The answer is the last value.** After any calls a session holds the value of the last call
that had one, and its first answer if none had. A text evaluated then leaves the session as it is
whenever there is an error, at any stage; and where its keys can be read, every answer key among
them carries the answer held, and the result is what is calculated from these keys. -/
theorem answer_after (s : Session V) (calls : List (Call V)) :
    (s.after calls).answer = ((s.results calls).filterMap Except.toOption).getLastD s.answer ∧
      ∀ text,
        (∀ e, ((s.after calls).eval text).1 = .error e →
          ((s.after calls).eval text).2 = s.after calls) ∧
        ∀ keys, (s.after calls).read text = .ok keys →
          (∀ v, .constant (.answer v) ∈ keys → v = (s.after calls).answer) ∧
          ((s.after calls).eval text).1 = calculate keys := by
  refine ⟨answer_after_eq_getLastD s calls, fun text => ⟨fun e he => ?_, fun keys hkeys => ?_⟩⟩
  · exact perform_of_error (c := .eval text) he
  · refine ⟨fun v hv => answer_of_read hkeys hv, ?_⟩
    rw [eval_fst, value_of_read_ok hkeys]

end Session

end Keypad
