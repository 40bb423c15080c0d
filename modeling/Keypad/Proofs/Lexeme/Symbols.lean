import Keypad.Lexeme
import Mathlib.Data.List.TakeWhile

/-! # Symbols

The characters that display text is made of. A text is cut wholly only if it has no others: every
lexeme takes symbols off the text, and between lexemes there are blanks. So a text with a foreign
character is never read as keys, wherever that character stands. -/

namespace Keypad.Lexeme

variable {cs rest w : List Char} {l : Lexeme} {c : Char}

/-- All words of display text. -/
def words : List String := answerWords ++ functionWords ++ operatorWords ++ constantWords

/-- The characters of display text. -/
def isSymbol (c : Char) : Bool :=
  isBlank c || isSingle c || isSign c || c == 'E' || words.any (·.toList.contains c)

/-- Blanks are symbols. -/
theorem isSymbol_of_isBlank (h : isBlank c = true) : isSymbol c = true := by
  simp only [isSymbol, h, Bool.true_or]

/-- Digits, points and brackets are symbols. -/
theorem isSymbol_of_isSingle (h : isSingle c = true) : isSymbol c = true := by
  simp only [isSymbol, h, Bool.true_or, Bool.or_true]

/-- Digits and points are symbols. -/
theorem isSymbol_of_isMantissa (h : isMantissa c = true) : isSymbol c = true :=
  isSymbol_of_isSingle (by simp only [isSingle, h, Bool.true_or])

/-- Digits are symbols. -/
theorem isSymbol_of_isDigit (h : c.isDigit = true) : isSymbol c = true :=
  isSymbol_of_isMantissa (by simp only [isMantissa, h, Bool.true_or])

/-- The signs of exponents are symbols. -/
theorem isSymbol_of_isSign (h : isSign c = true) : isSymbol c = true := by
  simp only [isSymbol, h, Bool.true_or, Bool.or_true]

/-- The characters of words are symbols. -/
theorem isSymbol_of_mem_words (hw : String.ofList w ∈ words) (hc : c ∈ w) : isSymbol c = true := by
  have hany : words.any (·.toList.contains c) = true := by
    refine List.any_eq_true.2 ⟨String.ofList w, hw, ?_⟩
    rw [String.toList_ofList]
    exact List.contains_iff_mem.2 hc
  rw [isSymbol, hany, Bool.or_true]

/-! ## Lexemes take symbols off the text -/

/-- A sign that is split off is a symbol. -/
theorem isSymbol_of_mem_splitSign (hc : c ∈ (splitSign cs).1) : isSymbol c = true := by
  cases cs with
  | nil => cases hc
  | cons d cs =>
    rw [splitSign] at hc
    by_cases hd : isSign d = true
    · rw [if_pos hd] at hc
      obtain rfl := List.mem_singleton.1 hc
      exact isSymbol_of_isSign hd
    · rw [if_neg hd] at hc
      cases hc

/-- A number in scientific notation has symbols only. -/
theorem scientific?_symbols (h : scientific? cs = some (l, rest)) :
    ∃ w, cs = w ++ rest ∧ ∀ c ∈ w, isSymbol c = true := by
  unfold scientific? at h
  split at h
  · next tail htail =>
    dsimp only at h
    split at h
    · cases h
    · obtain ⟨-, rfl⟩ := Prod.mk.inj (Option.some.inj h)
      -- figures, an `E`, at most a sign and digits, all of them symbols
      refine ⟨cs.takeWhile isMantissa ++ 'E' :: ((splitSign tail).1 ++
        (splitSign tail).2.takeWhile Char.isDigit), ?_, fun c hc => ?_⟩
      · rw [List.append_assoc, List.cons_append, List.append_assoc, List.takeWhile_append_dropWhile,
          splitSign_append, ← htail, List.takeWhile_append_dropWhile]
      · rcases List.mem_append.1 hc with hc | hc
        · exact isSymbol_of_isMantissa (List.mem_takeWhile_imp hc)
        · rcases List.mem_cons.1 hc with rfl | hc
          · decide
          · rcases List.mem_append.1 hc with hc | hc
            · exact isSymbol_of_mem_splitSign hc
            · exact isSymbol_of_isDigit (List.mem_takeWhile_imp hc)
  · cases h

/-- A word that a text starts with consists of symbols. -/
theorem word?_symbols {ws : List String} (hws : ws ⊆ words) (h : word? ws cs = some (w, rest)) :
    cs = w ++ rest ∧ ∀ c ∈ w, isSymbol c = true := by
  obtain ⟨hcs, hw⟩ := word?_append h
  exact ⟨hcs, fun c hc => isSymbol_of_mem_words (hws hw) hc⟩

/-- A key of one character is a symbol. -/
theorem single?_symbols (h : single? cs = some (l, rest)) :
    ∃ w, cs = w ++ rest ∧ ∀ c ∈ w, isSymbol c = true := by
  cases cs with
  | nil => cases h
  | cons d cs =>
    rw [single?] at h
    split at h
    · next hd =>
      obtain ⟨-, rfl⟩ := Prod.mk.inj (Option.some.inj h)
      exact ⟨[d], rfl, fun c hc => List.mem_singleton.1 hc ▸ isSymbol_of_isSingle hd⟩
    · cases h

/-- A lexeme takes symbols off the text. -/
theorem scan?_symbols (h : scan? cs = some (l, rest)) :
    ∃ w, cs = w ++ rest ∧ ∀ c ∈ w, isSymbol c = true := by
  simp only [scan?, Option.or_eq_some_iff, Option.map_eq_some_iff, Prod.mk.injEq] at h
  rcases h with ((((⟨⟨w, r⟩, h, -, rfl⟩ | ⟨-, ⟨w, r⟩, h, -, rfl⟩) | ⟨-, ⟨w, r⟩, h, -, rfl⟩) |
    ⟨-, ⟨w, r⟩, h, -, rfl⟩) | ⟨-, h⟩) | ⟨-, h⟩
  · exact ⟨w, word?_symbols (by decide) h⟩
  · exact ⟨w, word?_symbols (by decide) h⟩
  · exact ⟨w, word?_symbols (by decide) h⟩
  · exact ⟨w, word?_symbols (by decide) h⟩
  · exact scientific?_symbols h
  · exact single?_symbols h

/-! ## Texts with foreign characters -/

/-- **A text that is cut wholly** has only symbols. -/
theorem isSymbol_of_split (h : (split cs).2 = []) : ∀ c ∈ cs, isSymbol c = true := by
  intro c hc
  -- a text is blanks, a lexeme and a shorter text; what is left over at the end is not cut
  rw [← List.takeWhile_append_dropWhile (p := isBlank) (l := cs)] at hc
  fun_induction split cs with
  | case1 cs hnone =>
    dsimp only at h
    rw [h, List.append_nil] at hc
    exact isSymbol_of_isBlank (List.mem_takeWhile_imp hc)
  | case2 cs l rest hsome lexemes left hsplit ih =>
    obtain ⟨w, hcs, hw⟩ := scan?_symbols hsome
    rw [hcs] at hc
    rcases List.mem_append.1 hc with hc | hc
    · exact isSymbol_of_isBlank (List.mem_takeWhile_imp hc)
    · rcases List.mem_append.1 hc with hc | hc
      · exact hw c hc
      · refine ih ?_ ?_
        · rw [hsplit]
          exact h
        · rw [List.takeWhile_append_dropWhile]
          exact hc

/-- **A text with a foreign character** is not read as keys. -/
theorem read_of_not_isSymbol {V : Type} (answer : V) {text : String} (hc : c ∈ text.toList)
    (hsymbol : isSymbol c = false) :
    ∃ column, Key.read answer text = .error (.unknownAt column) := by
  have hleft : (split text.toList).2 ≠ [] := by
    intro h
    rw [isSymbol_of_split h c hc] at hsymbol
    cases hsymbol
  rw [Key.read]
  split
  · next lexemes heq =>
    rw [heq] at hleft
    exact absurd rfl hleft
  · exact ⟨_, rfl⟩

end Keypad.Lexeme
