import Keypad.Proofs.Lexeme.Cut
import Keypad.Proofs.Lexeme.Neighbours

/-! # Texts without their blanks

Blanks between lexemes are skipped, and yet they may matter: without them a lexeme can run into the
next one. This happens with numbers in scientific notation only, which take up the digits and points
before them and the digits behind them. Where no two neighbours join in this way, a text without its
blanks is read as the same keys, and where some do, it is not. -/

namespace Keypad.Lexeme

variable {V : Type} {answer : V} {cs w rest mantissa sign digits : List Char} {c : Char}
  {l : Lexeme} {ls : List Lexeme} {ks ks' : List (Key V)}

/-! ## Leaving out blanks -/

/-- A text **without its blanks**. -/
def withoutBlanks (cs : List Char) : List Char := cs.filter fun c => !isBlank c

/-- Leaving out blanks respects joining texts. -/
@[simp] theorem withoutBlanks_append (cs ds : List Char) :
    withoutBlanks (cs ++ ds) = withoutBlanks cs ++ withoutBlanks ds :=
  List.filter_append cs ds

/-- A text that has no blanks is kept. -/
theorem withoutBlanks_eq_self (hw : ∀ c ∈ w, isBlank c = false) : withoutBlanks w = w :=
  List.filter_eq_self.2 fun c hc => by rw [hw c hc, Bool.not_false]

/-- Blanks in front are left out anyway. -/
theorem withoutBlanks_dropWhile (cs : List Char) :
    withoutBlanks (cs.dropWhile isBlank) = withoutBlanks cs := by
  have hblanks : withoutBlanks (cs.takeWhile isBlank) = [] := by
    refine List.filter_eq_nil_iff.2 fun c hc => ?_
    rw [List.mem_takeWhile_imp hc]
    decide
  conv => rhs; rw [← List.takeWhile_append_dropWhile (p := isBlank) (l := cs)]
  rw [withoutBlanks_append, hblanks, List.nil_append]

/-- The first character that is left is the first one behind the blanks. -/
theorem head?_withoutBlanks (cs : List Char) :
    (withoutBlanks cs).head? = (cs.dropWhile isBlank).head? := by
  rw [← withoutBlanks_dropWhile]
  cases hdrop : cs.dropWhile isBlank with
  | nil => rfl
  | cons c rest =>
    rw [withoutBlanks, List.filter_cons, isBlank_of_dropWhile hdrop]
    rfl

/-- Digits, points and brackets are no blanks. -/
theorem not_isBlank_of_isSingle (hc : isSingle c = true) : isBlank c = false := by
  refine Bool.eq_false_iff.2 fun hblank => ?_
  simp only [isBlank, Bool.or_eq_true, beq_iff_eq] at hblank
  rcases hblank with ((rfl | rfl) | rfl) | rfl <;> cases hc

/-- Digits and points are no blanks. -/
theorem not_isBlank_of_isMantissa (hc : isMantissa c = true) : isBlank c = false :=
  not_isBlank_of_isSingle (by rw [isSingle, hc, Bool.true_or, Bool.true_or])

/-- A number in scientific notation has no blanks inside. -/
theorem IsLiteral.not_isBlank (h : IsLiteral mantissa sign digits) :
    ∀ c ∈ mantissa ++ 'E' :: (sign ++ digits), isBlank c = false := by
  intro c hc
  rcases List.mem_append.1 hc with hc | hc
  · exact not_isBlank_of_isMantissa (h.mantissa_mem c hc)
  · rcases List.mem_cons.1 hc with rfl | hc
    · rfl
    · rcases List.mem_append.1 hc with hc | hc
      · rcases h.sign_eq with rfl | ⟨d, hd, rfl⟩
        · cases hc
        · obtain rfl := List.mem_singleton.1 hc
          simp only [isSign, Bool.or_eq_true, beq_iff_eq] at hd
          rcases hd with (rfl | rfl) | rfl <;> rfl
      · refine not_isBlank_of_isMantissa ?_
        rw [isMantissa, h.digits_mem c hc, Bool.true_or, Bool.true_or]

/-- No word is empty. -/
theorem ne_nil_of_mem_words (hw : String.ofList w ∈ words) : w ≠ [] := by
  rintro rfl
  have hno : "" ∉ words := by decide
  exact hno hw

/-- No word begins like an exponent. -/
theorem ne_e_of_mem_words (hw : String.ofList (c :: w) ∈ words) : c ≠ 'E' := by
  rintro rfl
  have hno : (words.all fun s => s.toList.head? != some 'E') = true := rfl
  have h := List.all_eq_true.1 hno _ hw
  rw [String.toList_ofList] at h
  cases h

/-- No word has a blank inside. -/
theorem not_isBlank_of_mem_words (hw : String.ofList w ∈ words) : ∀ c ∈ w, isBlank c = false := by
  have hall : (words.all fun s => s.toList.all fun c => !isBlank c) = true := rfl
  have h := List.all_eq_true.1 hall _ hw
  rw [String.toList_ofList] at h
  intro c hc
  have hc' := List.all_eq_true.1 h c hc
  rwa [Bool.not_eq_true'] at hc'

/-! ## The text behind a lexeme -/

/-- A lexeme begins with a digit exactly if it is told so. -/
theorem head?_isDigit_of_scan? (h : scan? (w ++ rest) = some (l, rest)) :
    (w ++ rest).head?.any Char.isDigit = l.front?.any Char.isDigit := by
  rcases scan?_cases h with ⟨hw, rfl⟩ | ⟨m, s, d, hlit, rfl, rfl⟩ | ⟨c, -, rfl, rfl⟩
  · have hmem := (word?_append hw).2
    obtain ⟨c, w, rfl⟩ := List.exists_cons_of_ne_nil (ne_nil_of_mem_words hmem)
    have hc : c.isDigit = false :=
      (Bool.or_eq_false_iff.1 (Bool.or_eq_false_iff.1 (not_isMantissa_of_mem_words hmem)).1).1
    rw [ofWord]
    split <;> simp [front?, hc]
  · obtain ⟨c, m, rfl⟩ := List.exists_cons_of_ne_nil hlit.mantissa_ne
    rfl
  · rfl

/-- A lexeme has no blanks. -/
theorem not_isBlank_of_scan? (h : scan? (w ++ rest) = some (l, rest)) :
    ∀ c ∈ w, isBlank c = false := by
  rcases scan?_cases h with ⟨hw, -⟩ | ⟨m, s, d, hlit, -, rfl⟩ | ⟨c, hc, -, rfl⟩
  · exact not_isBlank_of_mem_words (word?_append hw).2
  · exact hlit.not_isBlank
  · exact List.forall_mem_singleton.2 (not_isBlank_of_isSingle hc)

namespace Cut

/-- Without its blanks a text begins with a digit exactly if its first lexeme does. -/
theorem head?_isDigit (h : Cut cs ls) :
    (withoutBlanks cs).head?.any Char.isDigit = (ls.head?.bind front?).any Char.isDigit := by
  rw [head?_withoutBlanks]
  cases h with
  | blanks hbs => rw [List.dropWhile_eq_nil_iff.2 hbs]; rfl
  | lexeme hbs hscan h =>
    rw [List.dropWhile_append_of_pos hbs, dropWhile_of_scan? hscan]
    exact head?_isDigit_of_scan? hscan

/-- Without its blanks a text does not begin with an `h`. -/
theorem head?_ne_h (h : Cut cs ls) : (withoutBlanks cs).head? ≠ some 'h' := by
  rw [head?_withoutBlanks]
  cases h with
  | blanks hbs => rw [List.dropWhile_eq_nil_iff.2 hbs]; nofun
  | lexeme hbs hscan h =>
    rw [List.dropWhile_append_of_pos hbs, dropWhile_of_scan? hscan]
    intro hh
    obtain ⟨r, hr⟩ := List.head?_eq_some_iff.1 hh
    rw [hr, scan?_h] at hscan
    cases hscan

/-- Without blanks there is the lexeme, and what is left behind it. -/
theorem withoutBlanks_lexeme {bs : List Char} (hbs : ∀ c ∈ bs, isBlank c = true)
    (hscan : scan? (w ++ rest) = some (l, rest)) :
    withoutBlanks (bs ++ (w ++ rest)) = w ++ withoutBlanks rest := by
  rw [← withoutBlanks_dropWhile, List.dropWhile_append_of_pos hbs, withoutBlanks_dropWhile,
    withoutBlanks_append, withoutBlanks_eq_self (not_isBlank_of_scan? hscan)]

/-- Whether a number in scientific notation begins, maybe behind digits and points, once the blanks
are left out, is told by the lexemes. -/
theorem beginsLiteral_or_noExponent (h : Cut cs ls) :
    (runsIntoLiteral ls = true ∧ BeginsLiteral (withoutBlanks cs)) ∨
      (runsIntoLiteral ls = false ∧ NoExponent (withoutBlanks cs)) := by
  -- along the cut, from which the blanks may be taken before and behind every lexeme
  induction h with
  | blanks hbs =>
    have hnil : withoutBlanks _ = [] := List.filter_eq_nil_iff.2 fun c hc => by
      rw [hbs c hc]
      decide
    rw [hnil]
    exact .inr ⟨rfl, noExponent_nil⟩
  | @lexeme bs w rest l ls hbs hscan h ih =>
    rw [withoutBlanks_lexeme hbs hscan]
    rcases scan?_cases hscan with ⟨hw, rfl⟩ | ⟨m, s, d, hlit, rfl, rfl⟩ | ⟨c, hc, rfl, rfl⟩
    · -- a word of fixed spelling begins with no figure and no `E`
      have hmem := (word?_append hw).2
      obtain ⟨c, w, rfl⟩ := List.exists_cons_of_ne_nil (ne_nil_of_mem_words hmem)
      have hc := not_isMantissa_of_mem_words hmem
      refine .inr ⟨?_, noExponent_cons hc (ne_e_of_mem_words hmem)⟩
      rw [ofWord]
      split
      · rfl
      · rw [runsIntoLiteral, List.head?_cons, Option.any_some, hc, Bool.false_and]
    · exact .inl ⟨rfl, m, s, d, hlit, List.prefix_append _ _⟩
    · rw [runsIntoLiteral, List.head?_cons, Option.any_some, List.singleton_append]
      cases hm : isMantissa c with
      | true =>
        -- a figure hands on what is behind it
        refine ih.imp (fun hlit => ⟨hlit.1, hlit.2.cons hm⟩) fun hno => ⟨hno.1, ?_⟩
        exact hno.2.mantissa (List.forall_mem_singleton.2 hm)
      | false =>
        refine .inr ⟨rfl, noExponent_cons hm ?_⟩
        rintro rfl
        cases hc

/-! ## Lexemes that are apart -/

/-- **Lexemes that are apart** are cut off without blanks between them, too. -/
theorem withoutBlanks_of_apart (h : Cut cs ls) (hapart : Apart ls) : Cut (withoutBlanks cs) ls := by
  -- every lexeme is cut off as before, if what now stands behind it does not join on
  induction h with
  | blanks hbs =>
    refine .blanks fun c hc => hbs c ?_
    exact (List.mem_filter.1 hc).1
  | @lexeme bs w rest l ls hbs hscan h ih =>
    rw [withoutBlanks_lexeme hbs hscan]
    rcases scan?_cases hscan with ⟨hw, rfl⟩ | ⟨m, s, d, hlit, rfl, rfl⟩ | ⟨c, hc, rfl, rfl⟩
    · rw [apart_ofWord_iff (word?_append hw).2] at hapart
      exact .cons (scan?_of_word? (word?_before hw h.head?_ne_h)) (ih hapart)
    · rw [apart_scientific_iff, ← h.head?_isDigit] at hapart
      refine .cons ?_ (ih hapart.2)
      have hscan' := scan?_scientific hlit hapart.1
      rwa [List.append_assoc, List.cons_append, List.append_assoc]
    · cases hm : isMantissa c with
      | true =>
        rw [apart_figure_iff (w := [c]) hm] at hapart
        rcases h.beginsLiteral_or_noExponent with ⟨hruns, -⟩ | ⟨-, hno⟩
        · rw [hapart.1] at hruns
          cases hruns
        · exact .cons (scan?_mantissa hm hno) (ih hapart.2)
      | false =>
        rw [apart_key_iff (w := [c]) hm] at hapart
        exact .cons (scan?_bracket hc hm _) (ih hapart)

end Cut

/-! ## Lexemes that are not apart -/

/-- A figure is no opening bracket. -/
theorem figureKey_ne_opening (c : Char) : (figureKey c : Key V) ≠ .opening := by
  rw [figureKey]
  intro h
  split at h <;> cases h

/-- A figure is no closing bracket. -/
theorem figureKey_ne_closing (c : Char) : (figureKey c : Key V) ≠ .closing := by
  rw [figureKey]
  intro h
  split at h <;> cases h

/-- A number in scientific notation is not read as one with more digits. -/
theorem literalKeys_append_ne {more : List Char} (hmore : more ≠ []) :
    (literalKeys mantissa sign digits : List (Key V)) ++ ks ≠
      literalKeys mantissa sign (digits ++ more) ++ ks' := by
  intro h
  -- the exponent of one ends with a bracket where that of the other has a digit
  obtain ⟨c, more, rfl⟩ := List.exists_cons_of_ne_nil hmore
  simp only [literalKeys, List.map_append, List.append_assoc, List.map_cons, List.cons_append,
    List.nil_append, List.cons.injEq, true_and, List.append_cancel_left_eq] at h
  exact figureKey_ne_closing c h.1.symm

/-- A digit or a point alone stands for its own key. -/
theorem keys_figure (answer : V) (hc : isMantissa c = true) :
    (Lexeme.key [c]).keys answer = .ok [figureKey c] := by
  rw [keys, keyOf_figure hc]
  rfl

/-- Behind a number in scientific notation, a digit goes on with it. -/
theorem scan?_scientific_digit (h : IsLiteral mantissa sign digits)
    (hrest : rest.head?.any Char.isDigit = true) :
    ∃ more rest', more ≠ [] ∧ IsLiteral mantissa sign (digits ++ more) ∧
      scan? (mantissa ++ 'E' :: (sign ++ (digits ++ rest))) =
        some (.scientific mantissa (sign ++ (digits ++ more)), rest') := by
  -- the number ends where the digits end, not where its own did
  have hmore : rest.takeWhile Char.isDigit ≠ [] := by
    cases rest with
    | nil => cases hrest
    | cons c rest =>
      have hc : c.isDigit = true := hrest
      rw [List.takeWhile_cons_of_pos hc]
      exact List.cons_ne_nil _ _
  have hlit : IsLiteral mantissa sign (digits ++ rest.takeWhile Char.isDigit) := by
    refine ⟨h.mantissa_ne, h.mantissa_mem, h.sign_eq, ?_, fun c hc => ?_⟩
    · exact fun hnil => h.digits_ne (List.append_eq_nil_iff.1 hnil).1
    · exact (List.mem_append.1 hc).elim (h.digits_mem c) List.mem_takeWhile_imp
  have hend : (rest.dropWhile Char.isDigit).head?.any Char.isDigit = false := by
    have hnot := List.head?_dropWhile_not Char.isDigit rest
    cases hhead : (rest.dropWhile Char.isDigit).head? with
    | none => rfl
    | some c =>
      rw [hhead] at hnot
      exact hnot
  refine ⟨_, rest.dropWhile Char.isDigit, hmore, hlit, ?_⟩
  rw [← scan?_scientific hlit hend, List.append_assoc, List.takeWhile_append_dropWhile]

/-- **Lexemes that are not apart** are not read as the same keys without the blanks between them:
where one joins the next, a number in scientific notation begins too early or ends too late. -/
theorem Cut.apart_of_readAs (h : Cut cs ls) (hkeys : keysOf answer ls = .ok ks)
    (hread : ReadAs answer (withoutBlanks cs) ks) : Apart ls := by
  induction h generalizing ks with
  | blanks hbs => exact .nil
  | @lexeme bs w rest l ls hbs hscan h ih =>
    rw [withoutBlanks_lexeme hbs hscan] at hread
    obtain ⟨-, kl, -, -, hl, -⟩ := longestWord?_of_scan? answer hscan
    obtain ⟨ks', rfl, hkeys'⟩ := (keysOf_cons_eq_ok_iff hl).1 hkeys
    -- a lexeme that is still cut off leaves the other keys to the rest
    have hrest (hscan' : scan? (w ++ withoutBlanks rest) = some (l, withoutBlanks rest)) :
        Apart ls := by
      obtain ⟨ks'', heq, hread'⟩ := (readAs_iff_of_scan? hscan' hl).1 hread
      rw [← List.append_cancel_left heq] at hread'
      exact ih hkeys' hread'
    rcases scan?_cases hscan with ⟨hw, rfl⟩ | ⟨m, s, d, hlit, rfl, rfl⟩ | ⟨c, hc, rfl, rfl⟩
    · rw [apart_ofWord_iff (word?_append hw).2]
      exact hrest (scan?_of_word? (word?_before hw h.head?_ne_h))
    · rw [apart_scientific_iff, ← h.head?_isDigit]
      rw [List.append_assoc, List.cons_append, List.append_assoc] at hread hrest
      cases hdigit : (withoutBlanks rest).head?.any Char.isDigit with
      | false => exact ⟨rfl, hrest (scan?_scientific hlit hdigit)⟩
      | true =>
        -- the number takes up the digits behind it
        obtain ⟨more, rest', hmore, hlit', hscan'⟩ := scan?_scientific_digit hlit hdigit
        obtain ⟨ks'', heq, -⟩ := (readAs_iff_of_scan? hscan' (hlit'.keys_eq answer)).1 hread
        rw [hlit.keys_eq answer] at hl
        obtain rfl := Except.ok.inj hl
        exact absurd heq (literalKeys_append_ne hmore)
    · cases hm : isMantissa c with
      | false =>
        rw [apart_key_iff (w := [c]) hm]
        exact hrest (scan?_bracket hc hm _)
      | true =>
        rw [apart_figure_iff (w := [c]) hm]
        rcases h.beginsLiteral_or_noExponent with ⟨-, hbegins⟩ | ⟨hruns, hno⟩
        · -- a number begins with the digit or point, and its keys with a bracket
          obtain ⟨m, s, d, rest', hlit, hscan'⟩ := (hbegins.cons hm).scan?
          obtain ⟨ks'', heq, -⟩ := (readAs_iff_of_scan? hscan' (hlit.keys_eq answer)).1 hread
          rw [keys_figure answer hm] at hl
          obtain rfl := Except.ok.inj hl
          exact absurd (List.cons.inj heq).1 (figureKey_ne_opening c)
        · exact ⟨hruns, hrest (scan?_mantissa hm hno)⟩

end Keypad.Lexeme

namespace Keypad

/-- A text **without its blanks**. -/
def withoutBlanks (text : String) : String := String.ofList (Lexeme.withoutBlanks text.toList)

/-- **Blanks may be left out** of a text that can be read exactly if no lexeme joins the next one
without them: a digit or a point a number in scientific notation, or such a number a digit. The text
is then read as the same keys. -/
theorem Session.read_withoutBlanks {V : Type} (s : Session V) {text : String} {keys : List (Key V)}
    (h : s.read text = .ok keys) :
    s.read (withoutBlanks text) = .ok keys ↔ Lexeme.Apart (Lexeme.split text.toList).1 := by
  obtain ⟨ls, hcut, hkeys⟩ := Lexeme.read_eq_ok_iff.1 h
  rw [Lexeme.split_eq_iff_cut.2 hcut, Session.read, Lexeme.read_eq_ok_iff, withoutBlanks,
    String.toList_ofList]
  constructor
  · exact hcut.apart_of_readAs hkeys
  · exact fun hapart => ⟨ls, hcut.withoutBlanks_of_apart hapart, hkeys⟩

/-- The blanks of a sum may be left out. -/
theorem Session.read_withoutBlanks_sum :
    let s : Session Nat := ⟨0⟩
    let keys : List (Key Nat) :=
      [.opening, .digit 1, .operator .times, .digit 1, .digit 0, .operator .power, .opening,
        .digit 5, .closing, .closing, .operator .plus, .digit 2]
    s.read "1E5 + 2" = .ok keys ∧ s.read (withoutBlanks "1E5 + 2") = .ok keys := by
  intro s keys
  have hcut : Lexeme.Cut "1E5 + 2".toList [.scientific ['1'] ['5'], .key ['+'], .key ['2']] := by
    refine .cons (w := ['1', 'E', '5']) rfl (.blank rfl ?_)
    refine .cons (w := ['+']) rfl (.blank rfl ?_)
    exact .cons (w := ['2']) rfl .nil
  have hread : s.read "1E5 + 2" = .ok keys := Lexeme.read_eq_ok_iff.2 ⟨_, hcut, rfl⟩
  have hapart : Lexeme.Apart (Lexeme.split "1E5 + 2".toList).1 := by
    rw [Lexeme.split_eq_iff_cut.2 hcut]
    decide
  exact ⟨hread, (s.read_withoutBlanks hread).2 hapart⟩

/-- **A blank that matters**: `1 2E5` is read as `1` and `2E5`, and `12E5` as a single number. -/
theorem Session.not_read_withoutBlanks :
    let s : Session Nat := ⟨0⟩
    let keys : List (Key Nat) :=
      [.digit 1, .opening, .digit 2, .operator .times, .digit 1, .digit 0, .operator .power,
        .opening, .digit 5, .closing, .closing]
    s.read "1 2E5" = .ok keys ∧ withoutBlanks "1 2E5" = "12E5" ∧
      s.read (withoutBlanks "1 2E5") ≠ .ok keys := by
  intro s keys
  have hcut : Lexeme.Cut "1 2E5".toList [.key ['1'], .scientific ['2'] ['5']] := by
    refine .cons (w := ['1']) rfl (.blank rfl ?_)
    exact .cons (w := ['2', 'E', '5']) rfl .nil
  have hjoined : Lexeme.Cut (withoutBlanks "1 2E5").toList [.scientific ['1', '2'] ['5']] :=
    .cons (w := ['1', '2', 'E', '5']) rfl .nil
  have hread : s.read (withoutBlanks "1 2E5") =
      .ok (Lexeme.literalKeys ['1', '2'] [] ['5']) :=
    Lexeme.read_eq_ok_iff.2 ⟨_, hjoined, rfl⟩
  refine ⟨Lexeme.read_eq_ok_iff.2 ⟨_, hcut, rfl⟩, rfl, ?_⟩
  rw [hread]
  decide

end Keypad
