import Keypad.Lexeme

/-! # Reading does not look at answers

The value of the answer key enters the keys that are read and has no other influence: which lexemes
there are, which keys they stand for, and the errors of reading depend on the text alone. The keys
read with a value are those read with any other value, with the value replaced. -/

namespace Keypad

variable {V W : Type}

/-- What is looked up in a list with its values replaced is replaced. -/
theorem lookup_map_values {κ α β : Type} [BEq κ] (f : α → β) (key : κ) (l : List (κ × α)) :
    (l.map (Prod.map id f)).lookup key = (l.lookup key).map f := by
  induction l with
  | nil => rfl
  | cons p l ih =>
    obtain ⟨k, a⟩ := p
    rw [List.map_cons, Prod.map_apply, id_eq, List.lookup_cons, List.lookup_cons, ih]
    cases key == k <;> rfl

/-- A traversal with replaced results stops at the same error, or its results are replaced. -/
theorem mapM_map_results {ε α β γ : Type} {step : α → Except ε β} {step' : α → Except ε γ}
    (f : β → γ) (h : ∀ a, step' a = (step a).map f) (l : List α) :
    l.mapM step' = (l.mapM step).map (List.map f) := by
  induction l with
  | nil => rfl
  | cons a l ih =>
    rw [List.mapM_cons, List.mapM_cons, h, ih]
    cases step a with
    | error e => rfl
    | ok b => cases l.mapM step <;> rfl

/-! ## Spellings and lexemes -/

/-- The table of spellings holds no answer key. -/
theorem Key.spellings_map (f : V → W) :
    spellings = (spellings (V := V)).map (Prod.map id (Key.map f)) := rfl

/-- No text spells an answer, so the type of answers does not matter for spelling. -/
theorem Key.ofText?_map (f : V → W) (text : String) :
    ofText? text = (ofText? (V := V) text).map (Key.map f) := by
  rw [ofText?, ofText?, spellings_map f, lookup_map_values]

namespace Lexeme

/-- Nor does it for the key of a spelling. -/
theorem keyOf_map (f : V → W) (spelling : List Char) :
    keyOf spelling = (keyOf (V := V) spelling).map (Key.map f) := by
  rw [keyOf, keyOf, Key.ofText?_map f]
  cases Key.ofText? (V := V) (String.ofList spelling) <;> rfl

/-- Digits, points and signs are read as the same keys. -/
theorem mapM_keyOf_map (f : V → W) (cs : List Char) :
    cs.mapM (fun c => keyOf [c]) =
      (cs.mapM fun c => keyOf (V := V) [c]).map (List.map (Key.map f)) :=
  mapM_map_results (Key.map f) (fun c => keyOf_map f [c]) cs

/-- A lexeme stands for the same keys, with the answer replaced. -/
theorem keys_map (f : V → W) (answer : V) (l : Lexeme) :
    keys (f answer) l = (keys answer l).map (List.map (Key.map f)) := by
  -- only the lexeme of the answer has a key that depends on it
  cases l with
  | answer => rfl
  | key spelling =>
    rw [keys, keys, keyOf_map f]
    cases keyOf (V := V) spelling <;> rfl
  | scientific mantissa exponent =>
    rw [keys, keys, mapM_keyOf_map f, mapM_keyOf_map f]
    cases mantissa.mapM fun c => keyOf (V := V) [c] with
    | error e => rfl
    | ok digits =>
      cases (exponent.filter (· != '+')).mapM fun c => keyOf (V := V) [c] with
      | error e => rfl
      | ok power =>
        refine congrArg Except.ok ?_
        simp [Key.map]

end Lexeme

/-! ## Whole texts -/

/-- **Reading does not look at the answer**: with another value a text has the same error, or its
keys are the same with the value replaced. -/
theorem Key.read_map (f : V → W) (answer : V) (text : String) :
    read (f answer) text = (read answer text).map (List.map (Key.map f)) := by
  rw [read, read]
  split
  · next lexemes _ =>
    -- the text was cut into lexemes before the answer was looked at
    rw [mapM_map_results _ (Lexeme.keys_map f answer)]
    cases lexemes.mapM (Lexeme.keys answer) with
    | error e => rfl
    | ok kss => exact congrArg Except.ok List.map_flatten.symm
  · rfl

end Keypad
