import Keypad.Proofs.Lexeme.LongestMatch

/-! # What follows a lexeme

A lexeme is cut off in the same way before another text, unless that goes on with it: an `h` may
make a longer function name, a digit goes on with an exponent, and behind digits and points an
exponent makes a number in scientific notation. So only these first characters of what follows
matter. -/

namespace Keypad.Lexeme

variable {V : Type} {answer : V} {cs w rest rest' mantissa sign digits : List Char} {c : Char}
  {l : Lexeme}

/-! ## Words of fixed spelling -/

/-- Among words of which none starts a later one, the word found is the longest at the front. -/
theorem word?_eq_some_iff {ws : List String}
    (hws : ws.Pairwise fun u v => u.toList.isPrefixOf v.toList = false) :
    word? ws cs = some (w, rest) ↔
      cs = w ++ rest ∧ String.ofList w ∈ ws ∧
        ∀ v ∈ ws, v.toList <+: cs → v.toList.length ≤ w.length := by
  constructor
  · intro h
    obtain ⟨hcs, hw⟩ := word?_append h
    exact ⟨hcs, hw, fun v hv => word?_longest hws h hv⟩
  · rintro ⟨hcs, hw, hlongest⟩
    have hbegin : w <+: cs := ⟨rest, hcs.symm⟩
    cases hword : word? ws cs with
    | none =>
      refine absurd ?_ (word?_eq_none_iff.1 hword _ hw)
      rwa [String.toList_ofList]
    | some p =>
      -- both words are the longest one, and so they are the same beginning of the text
      obtain ⟨w', r⟩ := p
      obtain ⟨hcs', hw'⟩ := word?_append hword
      have hle := word?_longest hws hword hw (by rwa [String.toList_ofList])
      have hge := hlongest _ hw' (by rw [String.toList_ofList]; exact ⟨r, hcs'.symm⟩)
      rw [String.toList_ofList] at hle hge
      obtain ⟨rfl, rfl⟩ := List.append_inj (hcs'.symm.trans hcs) (Nat.le_antisymm hge hle)
      rfl

/-- Words go on with an `h` to longer ones, and with nothing else. -/
theorem eq_or_h_of_mem_words {u v : String} (hu : u ∈ words) (hv : v ∈ words)
    (hbegin : u.toList <+: v.toList) :
    v = u ∨ (v.toList.drop u.toList.length).head? = some 'h' := by
  have hall : (words.all fun u => words.all fun v => !u.toList.isPrefixOf v.toList || v == u ||
      (v.toList.drop u.toList.length).head? == some 'h') = true := rfl
  have h := List.all_eq_true.1 (List.all_eq_true.1 hall u hu) v hv
  rw [List.isPrefixOf_iff_prefix.2 hbegin, Bool.not_true, Bool.false_or, Bool.or_eq_true,
    beq_iff_eq, beq_iff_eq] at h
  exact h

/-- Not before an `h`, a word that was found is found again. -/
theorem word?_before (h : word? words (w ++ rest) = some (w, rest))
    (hrest : rest'.head? ≠ some 'h') : word? words (w ++ rest') = some (w, rest') := by
  have hw := (word?_append h).2
  refine (word?_eq_some_iff words_pairwise).2 ⟨rfl, hw, fun v hv hbegin => ?_⟩
  -- a word longer than this one would go on behind it
  by_contra hlt
  have hwv : w <+: v.toList :=
    List.prefix_of_prefix_length_le (List.prefix_append w rest') hbegin (by omega)
  rcases eq_or_h_of_mem_words hw hv (by rwa [String.toList_ofList]) with rfl | hh
  · rw [String.toList_ofList] at hlt
    exact hlt (Nat.le_refl _)
  · -- the longer word goes on with an `h`, and so does the text
    obtain ⟨u, hu⟩ := hwv
    rw [String.toList_ofList, ← hu, List.drop_left] at hh
    rw [← hu, List.prefix_append_right_inj] at hbegin
    obtain ⟨r, rfl⟩ := hbegin
    cases u with
    | nil => cases hh
    | cons c u => exact hrest hh

/-! ## The kinds of lexemes -/

/-- A key of one character is the front of the text. -/
theorem single?_append (h : single? cs = some (l, rest)) :
    ∃ c, isSingle c = true ∧ l = .key [c] ∧ cs = [c] ++ rest := by
  cases cs with
  | nil => cases h
  | cons c cs =>
    rw [single?] at h
    split at h
    · next hc =>
      obtain ⟨rfl, rfl⟩ := Prod.mk.inj (Option.some.inj h)
      exact ⟨c, hc, rfl, rfl⟩
    · cases h

/-- What is scanned is a word of fixed spelling, a number in scientific notation, or a single
character. -/
theorem scan?_cases (h : scan? (w ++ rest) = some (l, rest)) :
    (word? words (w ++ rest) = some (w, rest) ∧ l = ofWord w) ∨
      (∃ mantissa sign digits, IsLiteral mantissa sign digits ∧
        l = .scientific mantissa (sign ++ digits) ∧ w = mantissa ++ 'E' :: (sign ++ digits)) ∨
      ∃ c, isSingle c = true ∧ l = .key [c] ∧ w = [c] := by
  rw [scan?_eq, Option.or_eq_some_iff, Option.or_eq_some_iff] at h
  -- a word of fixed spelling, a number in scientific notation or a single character
  rcases h with (h | ⟨-, h⟩) | ⟨-, h⟩
  · obtain ⟨⟨u, r⟩, hu, heq⟩ := Option.map_eq_some_iff.1 h
    obtain ⟨rfl, rfl⟩ := Prod.mk.inj heq
    obtain rfl := List.append_cancel_right (word?_append hu).1
    exact .inl ⟨hu, rfl⟩
  · obtain ⟨m, s, d, hlit, hl, heq⟩ := exists_isLiteral h
    have hw : w ++ rest = m ++ 'E' :: (s ++ d) ++ rest := by
      rw [heq, List.append_assoc, List.cons_append, List.append_assoc]
    exact .inr (.inl ⟨m, s, d, hlit, hl, List.append_cancel_right hw⟩)
  · obtain ⟨c, hc, hl, heq⟩ := single?_append h
    exact .inr (.inr ⟨c, hc, hl, List.append_cancel_right heq⟩)

/-- **Words of fixed spelling come first**: a scan finds one whatever else the text begins with. -/
theorem scan?_of_word? (h : word? words cs = some (w, rest)) :
    scan? cs = some (ofWord w, rest) := by
  rw [scan?_eq, h]
  rfl

/-- A bracket is cut off alone. -/
theorem scan?_bracket (hc : isSingle c = true) (hm : isMantissa c = false) (rest : List Char) :
    scan? (c :: rest) = some (.key [c], rest) := by
  rw [isSingle, hm, Bool.false_or, Bool.or_eq_true, beq_iff_eq, beq_iff_eq] at hc
  rcases hc with rfl | rfl <;> rfl

/-- Where an `h` is in front, no lexeme starts. -/
theorem scan?_h (rest : List Char) : scan? ('h' :: rest) = none := rfl

/-! ## Numbers in scientific notation at the front -/

/-- A text **begins a number** in scientific notation. -/
def BeginsLiteral (cs : List Char) : Prop :=
  ∃ mantissa sign digits, IsLiteral mantissa sign digits ∧
    mantissa ++ 'E' :: (sign ++ digits) <+: cs

/-- A digit or a point in front belongs to the number. -/
theorem BeginsLiteral.cons (h : BeginsLiteral cs) (hc : isMantissa c = true) :
    BeginsLiteral (c :: cs) := by
  obtain ⟨m, s, d, hlit, hbegin⟩ := h
  refine ⟨c :: m, s, d, ⟨List.cons_ne_nil _ _, ?_, hlit.sign_eq, hlit.digits_ne, hlit.digits_mem⟩,
    List.cons_prefix_cons.2 ⟨rfl, hbegin⟩⟩
  exact List.forall_mem_cons.2 ⟨hc, hlit.mantissa_mem⟩

/-- Where a number in scientific notation begins, one is cut off. -/
theorem BeginsLiteral.scan? (h : BeginsLiteral cs) :
    ∃ mantissa sign digits rest, IsLiteral mantissa sign digits ∧
      Lexeme.scan? cs = some (.scientific mantissa (sign ++ digits), rest) := by
  obtain ⟨m, s, d, hlit, hbegin⟩ := h
  obtain ⟨l, r, hscan, -⟩ := hlit.scientific?_of_prefix hbegin
  obtain ⟨m', s', d', hlit', rfl, -⟩ := exists_isLiteral hscan
  refine ⟨m', s', d', r, hlit', ?_⟩
  obtain ⟨c, m, rfl⟩ := List.exists_cons_of_ne_nil hlit.mantissa_ne
  obtain ⟨r', rfl⟩ := hbegin
  rw [List.cons_append, List.cons_append] at hscan ⊢
  rw [scan?_of_isMantissa (hlit.mantissa_mem c List.mem_cons_self), hscan, Option.some_or]

/-! ## Lexemes that join -/

/-- The first character of a lexeme. The answer, in either spelling, begins with a letter. -/
def front? : Lexeme → Option Char
  | .answer => none
  | .key w => w.head?
  | .scientific mantissa _ => mantissa.head?

/-- Whether a lexeme **joins** the next one when nothing stands between them: a digit or a point joins
a number in scientific notation, and such a number joins a digit. -/
def joins : Lexeme → Lexeme → Bool
  | .key w, .scientific _ _ => w.head?.any isMantissa
  | .scientific _ _, l => l.front?.any Char.isDigit
  | _, _ => false

/-- Lexemes are **apart** if none joins the next one. -/
def Apart (ls : List Lexeme) : Prop := ls.IsChain fun l l' => joins l l' = false

instance (ls : List Lexeme) : Decidable (Apart ls) :=
  inferInstanceAs (Decidable (ls.IsChain fun l l' => joins l l' = false))

/-- Lexemes are apart if the first two are and those behind are. -/
theorem apart_cons_cons {l' : Lexeme} :
    Apart (l :: l' :: ls) ↔ joins l l' = false ∧ Apart (l' :: ls) :=
  List.isChain_cons_cons

/-- Whether some lexemes, put behind a digit or a point, make a number in scientific notation of it. -/
def runsIntoLiteral : List Lexeme → Bool
  | .scientific _ _ :: _ => true
  | .key w :: ls => w.head?.any isMantissa && runsIntoLiteral ls
  | _ => false

/-- Behind a digit or a point, lexemes that are apart do not begin with a number in scientific
notation, be it right there or behind further digits. -/
theorem apart_figure_iff (hw : w.head?.any isMantissa = true) :
    Apart (.key w :: ls) ↔ runsIntoLiteral ls = false ∧ Apart ls := by
  -- the induction goes over the digits and points up to the number
  induction ls generalizing w with
  | nil => simp [Apart, runsIntoLiteral]
  | cons l ls ih =>
    rw [apart_cons_cons]
    cases l with
    | answer => simp [joins, runsIntoLiteral]
    | scientific m e => simp [joins, runsIntoLiteral, hw]
    | key w' =>
      have hjoins : joins (.key w) (.key w') = false := rfl
      rw [hjoins, runsIntoLiteral]
      cases hw' : w'.head?.any isMantissa with
      | false => simp
      | true =>
        rw [ih hw', Bool.true_and]
        tauto

/-- Behind a number in scientific notation only a digit is not apart. -/
theorem apart_scientific_iff {e : List Char} :
    Apart (.scientific mantissa e :: ls) ↔
      (ls.head?.bind front?).any Char.isDigit = false ∧ Apart ls := by
  cases ls with
  | nil => simp [Apart]
  | cons l' ls =>
    rw [apart_cons_cons]
    rfl

/-- Words of fixed spelling and brackets join nothing. -/
theorem apart_key_iff (hw : w.head?.any isMantissa = false) : Apart (.key w :: ls) ↔ Apart ls := by
  cases ls with
  | nil => simp [Apart]
  | cons l' ls =>
    have hjoins : joins (.key w) l' = false := by
      cases l' <;> first | rfl | exact hw
    rw [apart_cons_cons, hjoins, and_iff_right rfl]

/-- Behind a word of fixed spelling everything is apart. -/
theorem apart_ofWord_iff (hw : String.ofList w ∈ words) : Apart (ofWord w :: ls) ↔ Apart ls := by
  rw [ofWord]
  split
  · cases ls with
    | nil => simp [Apart]
    | cons l' ls => exact apart_cons_cons.trans (and_iff_right rfl)
  · refine apart_key_iff ?_
    cases w with
    | nil => rfl
    | cons c w => exact not_isMantissa_of_mem_words hw

end Keypad.Lexeme
