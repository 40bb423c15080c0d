import Keypad.Proofs.Lexeme.Munch
import Keypad.Proofs.Lexeme.Symbols

/-! # What words are

A word is of fixed spelling, a single character, or a number in scientific notation, and it stands
for the keys of a lexeme. -/

namespace Keypad.Lexeme

variable {V : Type} {answer : V} {cs w rest mantissa sign digits : List Char} {c : Char}

/-! ## Numbers in scientific notation -/

/-- What is split off as a sign is at most one character. -/
theorem splitSign_fst (cs : List Char) :
    (splitSign cs).1 = [] ∨ ∃ c, isSign c = true ∧ (splitSign cs).1 = [c] := by
  cases cs with
  | nil => exact .inl rfl
  | cons c cs =>
    rw [splitSign]
    split
    · next hc => exact .inr ⟨c, hc, rfl⟩
    · exact .inl rfl

/-- What is scanned as a number in scientific notation is one. -/
theorem exists_isLiteral {l : Lexeme} (h : scientific? cs = some (l, rest)) :
    ∃ mantissa sign digits, IsLiteral mantissa sign digits ∧
      l = .scientific mantissa (sign ++ digits) ∧
      cs = mantissa ++ 'E' :: (sign ++ (digits ++ rest)) := by
  unfold scientific? at h
  split at h
  · next tail htail =>
    dsimp only at h
    split at h
    · cases h
    · next hne =>
      simp only [Bool.or_eq_true, List.isEmpty_iff, not_or] at hne
      obtain ⟨rfl, rfl⟩ := Prod.mk.inj (Option.some.inj h)
      refine ⟨_, _, _, ⟨hne.1, fun c => List.mem_takeWhile_imp, splitSign_fst tail, hne.2,
        fun c => List.mem_takeWhile_imp⟩, rfl, ?_⟩
      rw [List.takeWhile_append_dropWhile, splitSign_append, ← htail,
        List.takeWhile_append_dropWhile]
  · cases h

/-- A text is taken apart as a number in scientific notation exactly if it is one. -/
theorem literal?_eq_some_iff :
    literal? w = some (mantissa, sign, digits) ↔
      w = mantissa ++ 'E' :: (sign ++ digits) ∧ IsLiteral mantissa sign digits := by
  constructor
  · intro h
    unfold literal? at h
    split at h
    · cases h
    · next e exponent hdrop =>
      dsimp only at h
      split at h
      · next hif =>
        simp only [Bool.and_eq_true, Bool.not_eq_true', List.isEmpty_eq_false_iff,
          List.all_eq_true] at hif
        obtain ⟨⟨⟨hm, hmantissa⟩, hd⟩, hdigits⟩ := hif
        obtain ⟨rfl, heq⟩ := Prod.mk.inj (Option.some.inj h)
        obtain ⟨rfl, rfl⟩ := Prod.mk.inj heq
        -- the first character after the mantissa is the one that ended it
        obtain rfl : e = 'E' := by
          have hhead := List.head?_dropWhile_not (· != 'E') w
          rw [hdrop] at hhead
          simpa using hhead
        refine ⟨?_, hm, hmantissa, splitSign_fst exponent, hd, hdigits⟩
        rw [splitSign_append, ← hdrop, List.takeWhile_append_dropWhile]
      · cases h
  · rintro ⟨rfl, h⟩
    have hE : ('E' :: (sign ++ digits)).head?.any (· != 'E') = false := rfl
    obtain ⟨htake, hdrop⟩ := span_append h.mantissa_ne_e hE
    have hsplit := h.splitSign_eq []
    rw [List.append_nil] at hsplit
    unfold literal?
    rw [hdrop, htake]
    dsimp only
    rw [hsplit, if_pos]
    simp only [Bool.and_eq_true, Bool.not_eq_true', List.isEmpty_eq_false_iff, List.all_eq_true]
    exact ⟨⟨⟨h.mantissa_ne, h.mantissa_mem⟩, h.digits_ne⟩, h.digits_mem⟩

/-! ## The kinds of words -/

/-- Every word of fixed spelling but the answer spells a key. -/
theorem isSome_ofText?_of_mem_words {s : String} (hs : s ∈ words) (ha : s ∉ answerWords) :
    ∃ k : Key V, Key.ofText? s = some k := by
  have hall : (words.all fun s => answerWords.contains s || (Key.ofText? s : Option (Key V)).isSome)
      = true := rfl
  have h := List.all_eq_true.1 hall s hs
  rw [Bool.or_eq_true, List.contains_iff_mem] at h
  exact Option.isSome_iff_exists.1 (h.resolve_left ha)

/-- Nothing spells a key but words of fixed spelling and single characters. -/
theorem mem_words_of_ofText? {s : String} {k : Key V} (h : Key.ofText? s = some k) :
    s ∈ words ∨ ∃ c, isSingle c = true ∧ s.toList = [c] := by
  have hmem : s ∈ (Key.spellings (V := V)).map Prod.fst := by
    obtain ⟨l, l', hl, -⟩ := List.lookup_eq_some_iff.1 h
    exact List.mem_map.2 ⟨(s, k), by rw [hl]; exact List.mem_append_right _ List.mem_cons_self, rfl⟩
  -- the spellings do not depend on the type of values
  have hmem' : s ∈ (Key.spellings (V := Unit)).map Prod.fst := hmem
  have hall : (((Key.spellings (V := Unit)).map Prod.fst).all fun s =>
      words.contains s || (s.toList.length == 1 && s.toList.all isSingle)) = true := rfl
  have hs := List.all_eq_true.1 hall s hmem'
  rw [Bool.or_eq_true, List.contains_iff_mem, Bool.and_eq_true, beq_iff_eq, List.all_eq_true] at hs
  refine hs.imp id fun ⟨hlen, hsingle⟩ => ?_
  obtain ⟨c, hc⟩ := List.length_eq_one_iff.1 hlen
  exact ⟨c, hsingle c (hc ▸ List.mem_singleton_self c), hc⟩

/-- Words are of fixed spelling, single characters or numbers in scientific notation. -/
theorem wordKeys?_cases {ks : List (Key V)} (h : wordKeys? answer w = some ks) :
    String.ofList w ∈ words ∨ (∃ c, isSingle c = true ∧ w = [c]) ∨
      ∃ mantissa sign digits, w = mantissa ++ 'E' :: (sign ++ digits) ∧
        IsLiteral mantissa sign digits := by
  rw [wordKeys?] at h
  split at h
  · next ha => exact .inl (by simp only [words, List.mem_append, ha, true_or])
  · split at h
    · next k hk =>
      rcases mem_words_of_ofText? hk with hw | ⟨c, hc, hw⟩
      · exact .inl hw
      · exact .inr (.inl ⟨c, hc, by rwa [String.toList_ofList] at hw⟩)
    · obtain ⟨⟨m, s, d⟩, hlit, -⟩ := Option.map_eq_some_iff.1 h
      exact .inr (.inr ⟨m, s, d, literal?_eq_some_iff.1 hlit⟩)

/-! ## The keys of words -/

/-- The lexeme of a word of fixed spelling. -/
def ofWord (w : List Char) : Lexeme := if String.ofList w ∈ answerWords then .answer else .key w

/-- A word of fixed spelling stands for the keys of its lexeme. -/
theorem wordKeys?_ofWord (answer : V) (hw : String.ofList w ∈ words) :
    ∃ ks, wordKeys? answer w = some ks ∧ (ofWord w).keys answer = .ok ks := by
  by_cases ha : String.ofList w ∈ answerWords
  · refine ⟨[.constant (.answer answer)], ?_, ?_⟩
    · rw [wordKeys?, if_pos ha]
    · rw [ofWord, if_pos ha, keys]
  · obtain ⟨k, hk⟩ := isSome_ofText?_of_mem_words (V := V) hw ha
    refine ⟨[k], ?_, ?_⟩
    · rw [wordKeys?, if_neg ha, hk]
    · rw [ofWord, if_neg ha, keys, keyOf, hk]
      rfl

/-- A digit or a point spells its key. -/
theorem keyOf_figure (hc : isMantissa c = true) : keyOf [c] = .ok (figureKey c : Key V) := by
  rw [isMantissa, Bool.or_eq_true, Bool.or_eq_true, beq_iff_eq, beq_iff_eq] at hc
  rcases hc with (hdigit | rfl) | rfl
  · rw [figureKey, if_pos hdigit]
    have hkey := keyOf_numeralChar (V := V) (k := some (digitOf c))
      fun d hd => Option.some.inj hd ▸ digitOf_le hdigit
    rwa [numeralChar, digitChar_digitOf hdigit] at hkey
  · rfl
  · rfl

/-- Digits and points spell their keys one after the other. -/
theorem mapM_keyOf_figures (hw : ∀ c ∈ w, isMantissa c = true) :
    w.mapM (fun c => keyOf [c]) = (.ok (w.map figureKey) : Except ReadError (List (Key V))) := by
  induction w with
  | nil => rfl
  | cons c w ih =>
    obtain ⟨hc, hw⟩ := List.forall_mem_cons.1 hw
    rw [List.mapM_cons, keyOf_figure hc, ih hw]
    rfl

/-- A key of one character stands for itself. -/
theorem wordKeys?_single (answer : V) (hc : isSingle c = true) :
    ∃ ks, wordKeys? answer [c] = some ks ∧ (Lexeme.key [c]).keys answer = .ok ks := by
  have hkey : ∃ k : Key V, keyOf [c] = .ok k := by
    rw [isSingle, Bool.or_eq_true, Bool.or_eq_true, beq_iff_eq, beq_iff_eq] at hc
    rcases hc with (hmantissa | rfl) | rfl
    · exact ⟨_, keyOf_figure hmantissa⟩
    · exact ⟨.opening, rfl⟩
    · exact ⟨.closing, rfl⟩
  obtain ⟨k, hk⟩ := hkey
  -- the words for the answer have three characters
  have hanswer : String.ofList [c] ∉ answerWords := by
    intro h
    have hlen : ∀ s ∈ answerWords, s.toList.length = 3 := by decide
    have hone := hlen _ h
    rw [String.toList_ofList] at hone
    cases hone
  refine ⟨[k], ?_, by rw [keys, hk]; rfl⟩
  rw [wordKeys?, if_neg hanswer]
  rw [keyOf] at hk
  cases hk' : (Key.ofText? (String.ofList [c]) : Option (Key V)) with
  | none =>
    rw [hk'] at hk
    cases hk
  | some k' =>
    rw [hk'] at hk
    obtain rfl := Except.ok.inj hk
    rfl

/-- The exponent of a number in scientific notation has a key for a minus and none for a plus. -/
theorem IsLiteral.mapM_keyOf_exponent (h : IsLiteral mantissa sign digits) :
    ((sign ++ digits).filter (· != '+')).mapM (fun c => keyOf [c]) =
      (.ok ((if sign = ['-'] ∨ sign = ['−'] then [.operator .minus] else []) ++ digits.map figureKey) :
        Except ReadError (List (Key V))) := by
  have hdigits : ∀ c ∈ digits, isMantissa c = true := fun c hc => by
    rw [isMantissa, h.digits_mem c hc, Bool.true_or, Bool.true_or]
  have hfilter : digits.filter (· != '+') = digits := by
    refine List.filter_eq_self.2 fun c hc => bne_iff_ne.2 ?_
    rintro rfl
    cases hdigits _ hc
  rw [List.filter_append, hfilter, List.mapM_append, mapM_keyOf_figures hdigits]
  rcases h.sign_eq with rfl | ⟨c, hc, rfl⟩
  · rfl
  · simp only [isSign, Bool.or_eq_true, beq_iff_eq] at hc
    rcases hc with (rfl | rfl) | rfl <;> rfl

/-- The keys of a number in scientific notation: a bracketed product with a power of ten. -/
theorem IsLiteral.keys_eq (answer : V) (h : IsLiteral mantissa sign digits) :
    (Lexeme.scientific mantissa (sign ++ digits)).keys answer =
      .ok (literalKeys mantissa sign digits) := by
  rw [keys, mapM_keyOf_figures h.mantissa_mem, h.mapM_keyOf_exponent]
  rfl

/-- A number in scientific notation stands for the keys of its lexeme. -/
theorem IsLiteral.wordKeys?_eq (answer : V) (h : IsLiteral mantissa sign digits) :
    ∃ ks, wordKeys? answer (mantissa ++ 'E' :: (sign ++ digits)) = some ks ∧
      (Lexeme.scientific mantissa (sign ++ digits)).keys answer = .ok ks := by
  obtain ⟨w, hw⟩ : ∃ w, w = mantissa ++ 'E' :: (sign ++ digits) := ⟨_, rfl⟩
  -- the `E` keeps it apart from the words, and its length from the single characters
  have hE : 'E' ∈ w := hw ▸ List.mem_append_right _ List.mem_cons_self
  have hlen : 1 < w.length := by
    have := List.length_pos_iff.2 h.mantissa_ne
    rw [hw, List.length_append, List.length_cons]
    omega
  have hwords : String.ofList w ∉ words := by
    intro hmem
    have hno : ∀ s ∈ words, 'E' ∉ s.toList := by decide
    exact hno _ hmem (by rwa [String.toList_ofList])
  have hanswer : String.ofList w ∉ answerWords :=
    fun hmem => hwords (by simp only [words, List.mem_append, hmem, true_or])
  have hnone : (Key.ofText? (String.ofList w) : Option (Key V)) = none := by
    refine Option.eq_none_iff_forall_ne_some.2 fun k hk => ?_
    rcases mem_words_of_ofText? hk with hmem | ⟨c, -, hc⟩
    · exact hwords hmem
    · rw [String.toList_ofList] at hc
      rw [hc] at hlen
      exact absurd hlen (Nat.lt_irrefl 1)
  rw [← hw]
  refine ⟨literalKeys mantissa sign digits, ?_, h.keys_eq answer⟩
  rw [wordKeys?, if_neg hanswer, hnone, literal?_eq_some_iff.2 ⟨hw, h⟩]
  rfl

end Keypad.Lexeme
