import Keypad.Key.Spelling

/-! # Lexemes of display text

Display text is cut into **lexemes** from left to right, blanks between them being skipped. At each
place the alternatives are tried in a fixed order, the first that matches wins, and each is greedy:
the answer, a function, an operator, a constant, a number in scientific notation, a digit, a
point, a bracket. Where none matches, the text up to there is still cut, and the rest is left over.

A lexeme stands for one key, except that a number in scientific notation stands for a bracketed
product: `1.5E-7` is read as `(1.5×10^(−7))`. -/

namespace Keypad

/-- A **lexeme**: the pieces that display text is made of. -/
inductive Lexeme where
  /-- The answer key, in either spelling. -/
  | answer
  /-- A key, with the text that spells it. -/
  | key (spelling : List Char)
  /-- A number in scientific notation, split at the `E` that each of them has. The exponent keeps
  its sign. One without an `E`, which would spell no key, never comes up: it is not scanned. -/
  | scientific (mantissa exponent : List Char)
  deriving DecidableEq, Repr

/-- Why a text could not be read as keys. -/
inductive ReadError where
  /-- No lexeme starts at this column; columns count from one in every line. -/
  | unknownAt (column : Nat)
  /-- A lexeme spells no key. -/
  | unknownSymbol (text : String)
  deriving DecidableEq, Repr

/-- The wording of a reading error. -/
def ReadError.message : ReadError → String
  | .unknownAt column => "unknown symbol at position " ++ column.repr
  | .unknownSymbol text => "unknown symbol '" ++ text ++ "'"

namespace Lexeme

/-! ## The alternatives -/

/-- Blanks may stand between lexemes: space, tab, line feed and carriage return. -/
def isBlank (c : Char) : Bool := c == ' ' || c == '\t' || c == '\n' || c == '\r'

/-- The characters of a mantissa: ASCII digits and both points. -/
def isMantissa (c : Char) : Bool := c.isDigit || c == '.' || c == ','

/-- The characters that may sign an exponent. -/
def isSign (c : Char) : Bool := c == '-' || c == '−' || c == '+'

/-- Keys of one character that are neither operators nor constants. -/
def isSingle (c : Char) : Bool := isMantissa c || c == '(' || c == ')'

/-- Spellings of the answer key. -/
def answerWords : List String := ["Ans", "ans"]

/-- Function names, a longer one before any name that it starts with. -/
def functionWords : List String :=
  ["asinh", "acosh", "atanh", "asin", "acos", "atan", "sinh", "cosh", "tanh", "sin", "cos", "tan",
    "log", "lg", "ln"]

/-- Spellings of operators. -/
def operatorWords : List String :=
  ["+", "-", "−", "*", "×", "·", "/", "÷", "^", "√", "mod", "%", "!"]

/-- Spellings of constants. -/
def constantWords : List String := ["π", "pi", "e", "i"]

/-- The rest of a text that starts with a word. -/
def after? : List Char → List Char → Option (List Char)
  | [], cs => some cs
  | _ :: _, [] => none
  | w :: ws, c :: cs => if w = c then after? ws cs else none

/-- The first of some words that the text starts with, and the rest of the text. -/
def word? (words : List String) (cs : List Char) : Option (List Char × List Char) :=
  words.findSome? fun w => (after? w.toList cs).map fun rest => (w.toList, rest)

/-- An optional sign, and the rest of the text. -/
def splitSign : List Char → List Char × List Char
  | [] => ([], [])
  | c :: cs => if isSign c then ([c], cs) else ([], c :: cs)

/-- A number in scientific notation: a mantissa, `E`, an optional sign and digits. -/
def scientific? (cs : List Char) : Option (Lexeme × List Char) :=
  match cs.dropWhile isMantissa with
  | 'E' :: tail =>
    let mantissa := cs.takeWhile isMantissa
    let digits := (splitSign tail).2.takeWhile Char.isDigit
    if mantissa.isEmpty || digits.isEmpty then none
    else some (.scientific mantissa ((splitSign tail).1 ++ digits),
      (splitSign tail).2.dropWhile Char.isDigit)
  | _ => none

/-- A key of one character. -/
def single? : List Char → Option (Lexeme × List Char)
  | c :: cs => if isSingle c then some (.key [c], cs) else none
  | [] => none

/-- The lexeme at the start of a text, and the rest of the text. -/
def scan? (cs : List Char) : Option (Lexeme × List Char) :=
  ((word? answerWords cs).map fun (_, rest) => (.answer, rest))
  |>.or ((word? functionWords cs).map fun (w, rest) => (.key w, rest))
  |>.or ((word? operatorWords cs).map fun (w, rest) => (.key w, rest))
  |>.or ((word? constantWords cs).map fun (w, rest) => (.key w, rest))
  |>.or (scientific? cs)
  |>.or (single? cs)

/-! ## A scan shortens the text -/

/-- What is found after a word is the rest of a text that begins with it. -/
theorem after?_eq_some_iff {w cs rest : List Char} : after? w cs = some rest ↔ cs = w ++ rest := by
  induction w generalizing cs with
  | nil => simp [after?]
  | cons c w ih =>
    cases cs with
    | nil => simp [after?]
    | cons d cs =>
      by_cases h : c = d
      · simp [after?, h, ih]
      · simp [after?, h, Ne.symm h]

/-- A word that is found is one of the list, and the text begins with it. -/
theorem word?_append {words : List String} {cs w rest : List Char}
    (h : word? words cs = some (w, rest)) : cs = w ++ rest ∧ String.ofList w ∈ words := by
  obtain ⟨s, hs, hw⟩ := List.exists_of_findSome?_eq_some h
  obtain ⟨r, hr, he⟩ := Option.map_eq_some_iff.1 hw
  obtain ⟨rfl, rfl⟩ := Prod.mk.inj he
  exact ⟨after?_eq_some_iff.1 hr, by simpa using hs⟩

/-- Taking a word off a text shortens it, because no word is empty. -/
theorem word?_length_lt {words : List String} (hne : "" ∉ words) {cs w rest : List Char}
    (h : word? words cs = some (w, rest)) : rest.length < cs.length := by
  obtain ⟨rfl, hw⟩ := word?_append h
  cases w with
  | nil => exact absurd hw hne
  | cons c w =>
    simp only [List.length_append, List.length_cons]
    omega

/-- Splitting off a sign loses nothing. -/
theorem splitSign_append (cs : List Char) : (splitSign cs).1 ++ (splitSign cs).2 = cs := by
  cases cs with
  | nil => rfl
  | cons c cs => by_cases h : isSign c <;> simp [splitSign, h]

/-- The parts of a number in scientific notation, in the order in which the text has them. Neither
the mantissa nor the exponent is without digits. -/
theorem scientific?_append {cs rest : List Char} {l : Lexeme}
    (h : scientific? cs = some (l, rest)) :
    ∃ mantissa sign digits, l = .scientific mantissa (sign ++ digits) ∧ mantissa ≠ [] ∧
      digits ≠ [] ∧ cs = mantissa ++ 'E' :: sign ++ digits ++ rest := by
  unfold scientific? at h
  split at h
  · next tail ht =>
    simp only at h
    split at h
    · simp at h
    · next hne =>
      simp only [Bool.or_eq_true, List.isEmpty_iff, not_or] at hne
      obtain ⟨rfl, rfl⟩ := Prod.mk.inj (Option.some.inj h)
      refine ⟨_, _, _, rfl, hne.1, hne.2, ?_⟩
      conv => lhs; rw [← List.takeWhile_append_dropWhile (p := isMantissa) (l := cs), ht]
      simp [List.takeWhile_append_dropWhile, splitSign_append]
  · simp at h

/-- **Every lexeme takes something** off the text, so that cutting a text into lexemes ends. -/
theorem scan?_length_lt {cs rest : List Char} {l : Lexeme} (h : scan? cs = some (l, rest)) :
    rest.length < cs.length := by
  simp only [scan?, Option.or_eq_some_iff, Option.map_eq_some_iff, Prod.mk.injEq] at h
  have hs : scientific? cs = some (l, rest) → rest.length < cs.length := by
    intro hs
    obtain ⟨m, s, d, -, -, -, rfl⟩ := scientific?_append hs
    simp only [List.length_append, List.length_cons]
    omega
  have h1 : single? cs = some (l, rest) → rest.length < cs.length := by
    cases cs with
    | nil => simp [single?]
    | cons c cs =>
      simp only [single?]
      split <;> simp
      rintro - rfl
      omega
  rcases h with ((((h | ⟨-, h⟩) | ⟨-, h⟩) | ⟨-, h⟩) | ⟨-, h⟩) | ⟨-, h⟩
  all_goals first
    | exact hs h
    | exact h1 h
    | (obtain ⟨⟨w, r⟩, h, -, rfl⟩ := h; exact word?_length_lt (by decide) h)

/-! ## Cutting a whole text -/

/-- Cuts a text into lexemes. The second component is what is left where no lexeme starts; it is
empty exactly when the whole text was cut. -/
def split (cs : List Char) : List Lexeme × List Char :=
  match _h : scan? (cs.dropWhile isBlank) with
  | none => ([], cs.dropWhile isBlank)
  | some (l, rest) =>
    let (lexemes, left) := split rest
    (l :: lexemes, left)
termination_by cs.length
decreasing_by
  all_goals
    have := scan?_length_lt _h
    have := (List.dropWhile_suffix isBlank (l := cs)).length_le
    omega

/-- The column at which `rest`, the end of `text`, begins: one more than the number of characters
since the last line feed. -/
def column (text rest : List Char) : Nat :=
  ((text.take (text.length - rest.length)).reverse.takeWhile (· != '\n')).length + 1

/-! ## The keys of a lexeme -/

variable {V : Type}

/-- The key with a given spelling. -/
def keyOf (spelling : List Char) : Except ReadError (Key V) :=
  match Key.ofText? (String.ofList spelling) with
  | some k => .ok k
  | none => .error (.unknownSymbol (String.ofList spelling))

/-- The keys that a lexeme stands for. A number in scientific notation is bracketed as a whole, so
that an `i` after it multiplies all of it; a plus in its exponent has no key. -/
def keys (answer : V) : Lexeme → Except ReadError (List (Key V))
  | .answer => .ok [.constant (.answer answer)]
  | .key spelling => (keyOf spelling).map fun k => [k]
  | .scientific mantissa exponent => do
    let digits ← mantissa.mapM fun c => keyOf [c]
    let power ← (exponent.filter (· != '+')).mapM fun c => keyOf [c]
    return [.opening] ++ digits
      ++ [.operator .times, .digit 1, .digit 0, .operator .power, .opening]
      ++ power ++ [.closing, .closing]

end Lexeme

/-- **Reads display text** as keys; the answer key gets the given value. -/
def Key.read {V : Type} (answer : V) (text : String) : Except ReadError (List (Key V)) :=
  match Lexeme.split text.toList with
  | (lexemes, []) => (lexemes.mapM (Lexeme.keys answer)).map List.flatten
  | (_, rest) => .error (.unknownAt (Lexeme.column text.toList rest))

end Keypad
