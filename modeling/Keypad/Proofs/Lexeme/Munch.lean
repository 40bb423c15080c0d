import Keypad.Proofs.Decimal.Numeral

/-! # Reading by longest words

What reading display text comes to, told without alternatives and their order. A **word** is a text
that stands for keys as a whole: the spelling of a key, the answer, or a number in scientific
notation. From left to right blanks are skipped and the longest word is taken; where no word starts,
reading stops at the column reached. -/

namespace Keypad.Lexeme

variable {V : Type} {answer : V}

/-! ## Words -/

/-- The key that a digit or a point in a number stands for. -/
def figureKey (c : Char) : Key V := if c.isDigit then .digit (digitOf c) else .point

/-- The mantissa of a number in scientific notation, and the sign and the digits of its exponent. -/
def literal? (w : List Char) : Option (List Char × List Char × List Char) :=
  match w.dropWhile (· != 'E') with
  | [] => none
  | _ :: exponent =>
    let mantissa := w.takeWhile (· != 'E')
    let (sign, digits) := splitSign exponent
    if !mantissa.isEmpty && mantissa.all isMantissa && !digits.isEmpty && digits.all Char.isDigit then
      some (mantissa, sign, digits)
    else none

/-- The keys that a number in scientific notation stands for. -/
def literalKeys (mantissa sign digits : List Char) : List (Key V) :=
  [.opening] ++ mantissa.map figureKey
    ++ [.operator .times, .digit 1, .digit 0, .operator .power, .opening]
    ++ ((if sign = ['-'] ∨ sign = ['−'] then [.operator .minus] else []) ++ digits.map figureKey)
    ++ [.closing, .closing]

/-- The keys that a **word** stands for. -/
def wordKeys? (answer : V) (w : List Char) : Option (List (Key V)) :=
  if String.ofList w ∈ answerWords then some [.constant (.answer answer)]
  else
    match Key.ofText? (String.ofList w) with
    | some k => some [k]
    | none => (literal? w).map fun (mantissa, sign, digits) => literalKeys mantissa sign digits

/-- The longest word among the first `n` beginnings of a text, and its keys. -/
def longest? (answer : V) (cs : List Char) : Nat → Option (List Char × List (Key V))
  | 0 => none
  | n + 1 =>
    ((wordKeys? answer (cs.take (n + 1))).map fun ks => (cs.take (n + 1), ks)).or
      (longest? answer cs n)

/-- The longest word that a text starts with, and its keys. -/
def longestWord? (answer : V) (cs : List Char) : Option (List Char × List (Key V)) :=
  longest? answer cs cs.length

/-- The longest word is a word, and it is a beginning of the text that is not empty. -/
theorem longest?_spec {cs w : List Char} {ks : List (Key V)} {n : Nat}
    (h : longest? answer cs n = some (w, ks)) :
    wordKeys? answer w = some ks ∧ ∃ m, 0 < m ∧ m ≤ n ∧ w = cs.take m := by
  induction n with
  | zero => cases h
  | succ n ih =>
    rw [longest?, Option.or_eq_some_iff] at h
    rcases h with h | ⟨-, h⟩
    · obtain ⟨ks', hks', heq⟩ := Option.map_eq_some_iff.1 h
      obtain ⟨rfl, rfl⟩ := Prod.mk.inj heq
      exact ⟨hks', n + 1, by omega, Nat.le_refl _, rfl⟩
    · obtain ⟨hkeys, m, hpos, hle, hw⟩ := ih h
      exact ⟨hkeys, m, hpos, by omega, hw⟩

/-- The longest word is a word that the text begins with, and is not empty. -/
theorem longestWord?_spec {cs w : List Char} {ks : List (Key V)}
    (h : longestWord? answer cs = some (w, ks)) :
    wordKeys? answer w = some ks ∧ w <+: cs ∧ 0 < w.length := by
  obtain ⟨hkeys, m, hpos, hle, rfl⟩ := longest?_spec h
  refine ⟨hkeys, List.take_prefix _ _, ?_⟩
  rw [List.length_take]
  omega

/-! ## Reading word by word -/

/-- The column after a character. -/
def advance (column : Nat) (c : Char) : Nat := if c = '\n' then 1 else column + 1

/-- **Reads a text by longest words**, given the column at which it begins. -/
def munch (answer : V) (column : Nat) : List Char → Except ReadError (List (Key V))
  | [] => .ok []
  | c :: cs =>
    if isBlank c then munch answer (advance column c) cs
    else
      match _h : longestWord? answer (c :: cs) with
      | none => .error (.unknownAt column)
      | some (w, ks) =>
        (munch answer (w.foldl advance column) ((c :: cs).drop w.length)).map (ks ++ ·)
termination_by cs => cs.length
decreasing_by
  · exact Nat.lt_succ_self _
  · have := (longestWord?_spec _h).2.2
    rw [List.length_drop, List.length_cons]
    omega

/-! ## The longest word -/

/-- A word is found by the search if no longer one is a beginning of the text. The search goes down
from the longest beginning. -/
theorem longest?_eq_some {cs w rest : List Char} {ks : List (Key V)} {n : Nat} (hcs : cs = w ++ rest)
    (hne : w ≠ []) (hkeys : wordKeys? answer w = some ks) (hn : w.length ≤ n) (hle : n ≤ cs.length)
    (hlongest : ∀ w', w' <+: cs → w.length < w'.length → wordKeys? answer w' = none) :
    longest? answer cs n = some (w, ks) := by
  -- the beginnings are tried from the longest down, as far as the word
  induction n with
  | zero =>
    have := List.length_pos_iff.2 hne
    omega
  | succ n ih =>
    rw [longest?]
    by_cases hlen : w.length = n + 1
    · have htake : cs.take (n + 1) = w := by rw [hcs, ← hlen, List.take_left]
      rw [htake, hkeys]
      rfl
    · -- a longer beginning is no word
      have hnone := hlongest (cs.take (n + 1)) (List.take_prefix _ _)
        (by rw [List.length_take]; omega)
      rw [hnone, Option.map_none, Option.none_or]
      exact ih (by omega) (by omega)

/-- The search ends without a word if no beginning of the text is one. -/
theorem longest?_eq_none {cs : List Char} {n : Nat}
    (hnone : ∀ w, w <+: cs → w ≠ [] → wordKeys? answer w = none) (hle : n ≤ cs.length) :
    longest? answer cs n = none := by
  induction n with
  | zero => rfl
  | succ n ih =>
    have hne : cs.take (n + 1) ≠ [] := by
      rw [← List.length_pos_iff, List.length_take]
      omega
    rw [longest?, hnone _ (List.take_prefix _ _) hne, Option.map_none, Option.none_or]
    exact ih (by omega)

/-- **The longest word**: a word at the beginning of a text is the longest one if no longer
beginning of the text is a word. -/
theorem longestWord?_eq_some {w rest : List Char} {ks : List (Key V)} (hne : w ≠ [])
    (hkeys : wordKeys? answer w = some ks)
    (hlongest : ∀ w', w' <+: w ++ rest → w.length < w'.length → wordKeys? answer w' = none) :
    longestWord? answer (w ++ rest) = some (w, ks) :=
  longest?_eq_some rfl hne hkeys (by rw [List.length_append]; omega) (Nat.le_refl _) hlongest

/-- There is no longest word if no beginning of the text is a word. -/
theorem longestWord?_eq_none {cs : List Char}
    (hnone : ∀ w, w <+: cs → w ≠ [] → wordKeys? answer w = none) : longestWord? answer cs = none :=
  longest?_eq_none hnone (Nat.le_refl _)

/-! ## Blanks and words in front -/

/-- Blanks in front are skipped. -/
theorem munch_blanks {bs : List Char} (hbs : ∀ c ∈ bs, isBlank c = true) (column : Nat)
    (cs : List Char) :
    munch answer column (bs ++ cs) = munch answer (bs.foldl advance column) cs := by
  induction bs generalizing column with
  | nil => rfl
  | cons b bs ih =>
    obtain ⟨hb, hbs⟩ := List.forall_mem_cons.1 hbs
    rw [List.cons_append, munch, if_pos hb, ih hbs, List.foldl_cons]

/-- A word in front is read first. -/
theorem munch_word {w rest : List Char} {ks : List (Key V)} (hne : w ≠ [])
    (hblank : ∀ c ∈ w.head?, isBlank c = false)
    (h : longestWord? answer (w ++ rest) = some (w, ks)) (column : Nat) :
    munch answer column (w ++ rest) =
      (munch answer (w.foldl advance column) rest).map (ks ++ ·) := by
  obtain ⟨c, w, rfl⟩ := List.exists_cons_of_ne_nil hne
  rw [List.cons_append, munch, if_neg (Bool.eq_false_iff.1 (hblank c rfl)), ← List.cons_append]
  split
  · next hnone =>
    rw [h] at hnone
    cases hnone
  · next w' ks' hsome =>
    rw [h] at hsome
    obtain ⟨rfl, rfl⟩ := Prod.mk.inj (Option.some.inj hsome)
    rw [List.drop_left]

/-- Where no word starts, reading stops. -/
theorem munch_stop {c : Char} {cs : List Char} (hblank : isBlank c = false)
    (h : longestWord? answer (c :: cs) = none) (column : Nat) :
    munch answer column (c :: cs) = .error (.unknownAt column) := by
  rw [munch, if_neg (Bool.eq_false_iff.1 hblank)]
  split
  · rfl
  · next hsome =>
    rw [h] at hsome
    cases hsome

/-- Reading by longest words fails at a column only. -/
theorem munch_ne_unknownSymbol (column : Nat) (cs : List Char) (symbol : String) :
    munch answer column cs ≠ .error (.unknownSymbol symbol) := by
  -- what is not a word is reported by its column only
  fun_induction munch answer column cs with
  | case1 => nofun
  | case2 column c cs hblank ih => exact ih
  | case3 => nofun
  | case4 column c cs hblank w ks hw ih =>
    intro h
    cases hrest : munch answer (w.foldl advance column) ((c :: cs).drop w.length) with
    | ok ks' =>
      rw [hrest] at h
      cases h
    | error e =>
      rw [hrest] at h
      cases h
      exact ih hrest

end Keypad.Lexeme
