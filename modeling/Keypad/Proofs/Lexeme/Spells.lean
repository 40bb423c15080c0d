import Keypad.Lexeme
import Keypad.Proofs.Grammar.Phrase

/-! # Texts that spell keys

How a text is cut into lexemes depends on what follows it: `sin` is no function before an `h`, and a
digit is no key of its own where the digits it belongs to are followed by an `E`. So a text is said
to **spell** keys in front of a given rest, and longer texts are put together from the back. -/

namespace Keypad.Lexeme

variable {V : Type} {answer : V} {c : Char} {w w' cs rest : List Char}

/-! ## Scanning -/

/-- A word is not found where a text starts with a character that no word starts with. -/
theorem word?_eq_none {words : List String} (p : Char → Bool)
    (hwords : (words.all fun s => s.toList.head?.any fun d => !p d) = true) (hc : p c = true) :
    word? words (c :: cs) = none := by
  rw [word?, List.findSome?_eq_none_iff]
  intro s hs
  -- the property tells the first character of the text from that of every word
  have hhead := List.all_eq_true.1 hwords s hs
  cases hlist : s.toList with
  | nil =>
    rw [hlist] at hhead
    cases hhead
  | cons d ds =>
    rw [hlist] at hhead
    have hd : (!p d) = true := hhead
    have hdc : d ≠ c := by
      rintro rfl
      rw [hc] at hd
      cases hd
    rw [after?, if_neg hdc, Option.map_none]

/-- No word starts like a mantissa. -/
theorem scan?_of_isMantissa (hc : isMantissa c = true) :
    scan? (c :: cs) = (scientific? (c :: cs)).or (some (.key [c], cs)) := by
  have hsingle : isSingle c = true := by
    rw [isSingle, hc]
    rfl
  rw [scan?, word?_eq_none isMantissa (by decide) hc, word?_eq_none isMantissa (by decide) hc,
    word?_eq_none isMantissa (by decide) hc, word?_eq_none isMantissa (by decide) hc, single?,
    if_pos hsingle]
  rfl

/-- No lexeme starts with a blank. -/
theorem scan?_of_isBlank (hc : isBlank c = true) : scan? (c :: cs) = none := by
  simp only [isBlank, Bool.or_eq_true, beq_iff_eq] at hc
  rcases hc with ((rfl | rfl) | rfl) | rfl <;> rfl

/-- A text does not go on as a mantissa that an exponent follows. -/
def NoExponent (cs : List Char) : Prop := (cs.dropWhile isMantissa).head? ≠ some 'E'

/-- Nothing follows the empty text. -/
theorem noExponent_nil : NoExponent [] := nofun

/-- Any other character ends what might become a mantissa. -/
theorem noExponent_cons (h : isMantissa c = false) (hE : c ≠ 'E') : NoExponent (c :: cs) := by
  rw [NoExponent, List.dropWhile_cons_of_neg (Bool.eq_false_iff.1 h)]
  exact fun hc => hE (Option.some.inj hc)

/-- Digits and points in front do not make an exponent. -/
theorem NoExponent.mantissa (h : NoExponent cs) (hw : ∀ c ∈ w, isMantissa c = true) :
    NoExponent (w ++ cs) := by
  rw [NoExponent, List.dropWhile_append_of_pos hw]
  exact h

/-- A character of a mantissa without an exponent is cut off alone. -/
theorem scan?_mantissa (hc : isMantissa c = true) (h : NoExponent cs) :
    scan? (c :: cs) = some (.key [c], cs) := by
  have hnone : scientific? (c :: cs) = none := by
    unfold scientific?
    rw [List.dropWhile_cons_of_pos hc]
    cases hdrop : cs.dropWhile isMantissa with
    | nil => rfl
    | cons d ds =>
      rw [NoExponent, hdrop] at h
      split
      · next heq =>
        rw [(List.cons.inj heq).1] at h
        exact absurd rfl h
      · rfl
  rw [scan?_of_isMantissa hc, hnone, Option.none_or]

/-- A run of characters of a kind ends where the next one is of another kind. -/
theorem span_append {p : Char → Bool} (hw : ∀ c ∈ w, p c = true) (hrest : rest.head?.any p = false) :
    (w ++ rest).takeWhile p = w ∧ (w ++ rest).dropWhile p = rest := by
  rw [List.takeWhile_append_of_pos hw, List.dropWhile_append_of_pos hw]
  cases rest with
  | nil => exact ⟨List.append_nil w, rfl⟩
  | cons c cs =>
    have hc : ¬ p c = true := Bool.eq_false_iff.1 hrest
    rw [List.takeWhile_cons_of_neg hc, List.dropWhile_cons_of_neg hc]
    exact ⟨List.append_nil w, rfl⟩

/-- A digit is no sign. -/
theorem isSign_of_isDigit (h : c.isDigit = true) : isSign c = false := by
  refine Bool.eq_false_iff.2 fun hsign => ?_
  simp only [isSign, Bool.or_eq_true, beq_iff_eq] at hsign
  rcases hsign with (rfl | rfl) | rfl <;> cases h

/-- The parts of a **number in scientific notation**. -/
structure IsLiteral (mantissa sign digits : List Char) : Prop where
  mantissa_ne : mantissa ≠ []
  mantissa_mem : ∀ c ∈ mantissa, isMantissa c = true
  sign_eq : sign = [] ∨ ∃ c, isSign c = true ∧ sign = [c]
  digits_ne : digits ≠ []
  digits_mem : ∀ c ∈ digits, c.isDigit = true

namespace IsLiteral

variable {mantissa sign digits : List Char}

/-- A mantissa has no `E`, so the first one of a number begins its exponent. -/
theorem mantissa_ne_e (h : IsLiteral mantissa sign digits) :
    ∀ c ∈ mantissa, (c != 'E') = true := by
  intro c hc
  refine bne_iff_ne.2 ?_
  rintro rfl
  cases h.mantissa_mem _ hc

/-- Splitting off a sign stops at the digits of the exponent. -/
theorem splitSign_eq (h : IsLiteral mantissa sign digits) (rest : List Char) :
    splitSign (sign ++ (digits ++ rest)) = (sign, digits ++ rest) := by
  rcases h.sign_eq with rfl | ⟨c, hc, rfl⟩
  · -- without a sign there is a digit, which is none
    obtain ⟨d, ds, rfl⟩ := List.exists_cons_of_ne_nil h.digits_ne
    have hno := isSign_of_isDigit (h.digits_mem d List.mem_cons_self)
    show splitSign (d :: (ds ++ rest)) = _
    rw [splitSign, if_neg (Bool.eq_false_iff.1 hno)]
    rfl
  · show splitSign (c :: (digits ++ rest)) = _
    rw [splitSign, if_pos hc]

/-- A number in scientific notation is scanned together with the digits that follow it. -/
theorem scientific?_eq (h : IsLiteral mantissa sign digits) (rest : List Char) :
    scientific? (mantissa ++ 'E' :: (sign ++ (digits ++ rest))) =
      some (.scientific mantissa (sign ++ (digits ++ rest.takeWhile Char.isDigit)),
        rest.dropWhile Char.isDigit) := by
  -- the figures of the mantissa end at the `E`, and the rest is sign and digits
  have hE : ('E' :: (sign ++ (digits ++ rest))).head?.any isMantissa = false := rfl
  obtain ⟨htake, hdrop⟩ := span_append h.mantissa_mem hE
  have hne : ¬ (digits ++ rest.takeWhile Char.isDigit) = [] :=
    fun hnil => h.digits_ne (List.append_eq_nil_iff.1 hnil).1
  unfold scientific?
  rw [hdrop]
  split
  · next tail heq =>
    obtain rfl := (List.cons.inj heq).2
    rw [htake, h.splitSign_eq]
    dsimp only
    rw [List.takeWhile_append_of_pos h.digits_mem, List.dropWhile_append_of_pos h.digits_mem,
      List.isEmpty_eq_false_iff.2 h.mantissa_ne, List.isEmpty_eq_false_iff.2 hne]
    rfl
  · next hno => exact absurd rfl (hno _)

end IsLiteral

/-- A mantissa with an exponent is cut off as one lexeme. -/
theorem scan?_scientific {mantissa sign digits : List Char} (h : IsLiteral mantissa sign digits)
    (hrest : rest.head?.any Char.isDigit = false) :
    scan? (mantissa ++ 'E' :: (sign ++ (digits ++ rest))) =
      some (.scientific mantissa (sign ++ digits), rest) := by
  have hscientific := h.scientific?_eq rest
  -- no further digits follow
  have hnone : ∀ c ∈ ([] : List Char), c.isDigit = true := nofun
  obtain ⟨htake, hdrop⟩ := span_append hnone hrest
  rw [List.nil_append] at htake hdrop
  rw [htake, hdrop, List.append_nil] at hscientific
  obtain ⟨c, m, rfl⟩ := List.exists_cons_of_ne_nil h.mantissa_ne
  rw [List.cons_append] at hscientific ⊢
  rw [scan?_of_isMantissa (h.mantissa_mem c List.mem_cons_self), hscientific, Option.some_or]

/-! ## Cutting -/

/-- Nothing is left of a text that is empty. -/
theorem split_nil : split [] = ([], []) := by
  rw [split]
  rfl

/-- Where no lexeme starts behind the blanks, nothing is cut off. -/
theorem split_of_none (h : scan? (cs.dropWhile isBlank) = none) :
    split cs = ([], cs.dropWhile isBlank) := by
  rw [split]
  split
  · rfl
  · next hsome =>
    rw [h] at hsome
    cases hsome

/-- A lexeme behind blanks is cut off first. -/
theorem split_of_some {l : Lexeme} (h : scan? (cs.dropWhile isBlank) = some (l, rest)) :
    split cs = (l :: (split rest).1, (split rest).2) := by
  rw [split]
  split
  · next hnone =>
    rw [h] at hnone
    cases hnone
  · next l' rest' hsome =>
    rw [h] at hsome
    obtain ⟨rfl, rfl⟩ := Prod.mk.inj (Option.some.inj hsome)
    rfl

/-- Where a lexeme starts, no blank is skipped. -/
theorem dropWhile_of_scan? {l : Lexeme} (h : scan? cs = some (l, rest)) :
    cs.dropWhile isBlank = cs := by
  cases cs with
  | nil => rfl
  | cons c cs =>
    refine List.dropWhile_cons_of_neg fun hc => ?_
    rw [scan?_of_isBlank hc] at h
    cases h

/-- A text is cut lexeme by lexeme. -/
theorem split_of_scan? {l : Lexeme} (h : scan? cs = some (l, rest)) :
    split cs = (l :: (split rest).1, (split rest).2) := by
  refine split_of_some ?_
  rw [dropWhile_of_scan? h, h]

/-! ## Spelling -/

/-- A text **spells** keys in front of a rest: up to the rest it is cut into lexemes that stand for
these keys. -/
def Spells (answer : V) (w rest : List Char) (ks : List (Key V)) : Prop :=
  ∃ ls kss, split (w ++ rest) = (ls ++ (split rest).1, (split rest).2) ∧
    ls.mapM (keys answer) = .ok kss ∧ kss.flatten = ks

/-- The empty text spells no keys. -/
theorem spells_nil (rest : List Char) : Spells answer [] rest [] := ⟨[], [], rfl, rfl, rfl⟩

/-- A lexeme spells its keys. -/
theorem spells_of_scan? {l : Lexeme} {ks : List (Key V)} (h : scan? (w ++ rest) = some (l, rest))
    (hkeys : l.keys answer = .ok ks) : Spells answer w rest ks := by
  refine ⟨[l], [ks], split_of_scan? h, ?_, ?_⟩
  · rw [List.mapM_cons, hkeys]
    rfl
  · rw [List.flatten_cons, List.flatten_nil, List.append_nil]

/-- Texts that spell keys are put together from the back. -/
theorem Spells.append {ks ks' : List (Key V)} (h : Spells answer w (w' ++ rest) ks)
    (h' : Spells answer w' rest ks') : Spells answer (w ++ w') rest (ks ++ ks') := by
  obtain ⟨ls, kss, hsplit, hkeys, rfl⟩ := h
  obtain ⟨ls', kss', hsplit', hkeys', rfl⟩ := h'
  refine ⟨ls ++ ls', kss ++ kss', ?_, ?_, List.flatten_append⟩
  · rw [List.append_assoc, hsplit, hsplit', List.append_assoc]
  · rw [List.mapM_append, hkeys, hkeys']
    rfl

/-- A text that spells keys in front of nothing is read as these keys. -/
theorem Spells.read {ks : List (Key V)} {text : String} (h : Spells answer text.toList [] ks) :
    Key.read answer text = .ok ks := by
  obtain ⟨ls, kss, hsplit, hkeys, rfl⟩ := h
  rw [List.append_nil, split_nil, List.append_nil] at hsplit
  rw [Key.read, hsplit]
  dsimp only
  rw [hkeys]
  rfl

/-! ## The spellings of keys -/

/-- The text of an operator spells it, whatever follows. -/
theorem spells_operator (o : Operator) (rest : List Char) :
    Spells answer o.text.toList rest [.operator o] := by
  cases o <;> exact spells_of_scan? rfl rfl

/-- An asterisk is read as a product. -/
theorem spells_asterisk (rest : List Char) : Spells answer ['*'] rest [.operator .times] :=
  spells_of_scan? rfl rfl

/-- A hyphen is read as a minus. -/
theorem spells_hyphen (rest : List Char) : Spells answer ['-'] rest [.operator .minus] :=
  spells_of_scan? rfl rfl

/-- An opening bracket spells itself. -/
theorem spells_opening (rest : List Char) : Spells answer ['('] rest [.opening] :=
  spells_of_scan? rfl rfl

/-- A closing bracket spells itself. -/
theorem spells_closing (rest : List Char) : Spells answer [')'] rest [.closing] :=
  spells_of_scan? rfl rfl

/-- Before its bracket the name of a function spells it, although some names start others. -/
theorem spells_function (f : Function) (rest : List Char) :
    Spells answer f.text.toList ('(' :: rest) [.function f] := by
  cases f <;> exact spells_of_scan? rfl rfl

/-- The answer key is read as the answer, whatever value it was typed with. -/
theorem spells_constant (c : Constant V) (hc : ∀ v, c = .answer v → v = answer) (rest : List Char) :
    Spells answer c.text.toList rest [.constant c] := by
  cases c with
  | pi =>
    show Spells answer "π".toList rest _
    exact spells_of_scan? rfl rfl
  | e =>
    show Spells answer "e".toList rest _
    exact spells_of_scan? rfl rfl
  | i =>
    show Spells answer "i".toList rest _
    exact spells_of_scan? rfl rfl
  | answer v =>
    rw [hc v rfl]
    show Spells answer "Ans".toList rest _
    exact spells_of_scan? rfl rfl

/-! ## Numerals -/

/-- The character that shows a digit or the point of a numeral. -/
def numeralChar : Option Nat → Char
  | some d => Nat.digitChar d
  | none => '.'

/-- A numeral of decimal digits and points. -/
def IsDecimal (n : Numeral) : Prop := ∀ d, some d ∈ n → d ≤ 9

/-- The figures of a decimal numeral are decimal one by one. -/
theorem isDecimal_cons {k : Option Nat} {n : Numeral} (h : IsDecimal (k :: n)) :
    (∀ d, k = some d → d ≤ 9) ∧ IsDecimal n :=
  ⟨fun d hd => h d (hd ▸ List.mem_cons_self), fun d hd => h d (List.mem_cons_of_mem _ hd)⟩

/-- The character of a decimal figure may stand in a mantissa. -/
theorem isMantissa_numeralChar {k : Option Nat} (hk : ∀ d, k = some d → d ≤ 9) :
    isMantissa (numeralChar k) = true := by
  match k, hk with
  | none, _ => rfl
  | some d, hk =>
    match d, hk d rfl with
    | 0, _ | 1, _ | 2, _ | 3, _ | 4, _ | 5, _ | 6, _ | 7, _ | 8, _ | 9, _ => rfl
    | d + 10, hd => omega

/-- The character of a decimal figure spells it. -/
theorem keyOf_numeralChar {k : Option Nat} (hk : ∀ d, k = some d → d ≤ 9) :
    keyOf [numeralChar k] = .ok (Numeral.key k : Key V) := by
  match k, hk with
  | none, _ => rfl
  | some d, hk =>
    match d, hk d rfl with
    | 0, _ | 1, _ | 2, _ | 3, _ | 4, _ | 5, _ | 6, _ | 7, _ | 8, _ | 9, _ => rfl
    | d + 10, hd => omega

/-- A mantissa is made of the characters of a decimal numeral. -/
theorem isMantissa_of_isDecimal {n : Numeral} (hn : IsDecimal n) :
    ∀ c ∈ n.map numeralChar, isMantissa c = true := by
  intro c hc
  obtain ⟨k, hk, rfl⟩ := List.mem_map.1 hc
  exact isMantissa_numeralChar fun d hd => hn d (hd ▸ hk)

/-- A decimal numeral spells its keys where no exponent follows. -/
theorem spells_numeral {n : Numeral} (hn : IsDecimal n) (hrest : NoExponent rest) :
    Spells answer (n.map numeralChar) rest (Numeral.keys n) := by
  induction n with
  | nil => exact spells_nil rest
  | cons k n ih =>
    obtain ⟨hk, hn⟩ := isDecimal_cons hn
    have hmantissa := isMantissa_of_isDecimal hn
    have hkey : Spells answer [numeralChar k] (n.map numeralChar ++ rest) [Numeral.key k] := by
      refine spells_of_scan? (scan?_mantissa (isMantissa_numeralChar hk) (hrest.mantissa hmantissa)) ?_
      rw [keys, keyOf_numeralChar hk]
      rfl
    exact hkey.append (ih hn)

/-- The characters of a decimal numeral are its keys, one by one. -/
theorem mapM_keyOf {n : Numeral} (hn : IsDecimal n) :
    (n.map numeralChar).mapM (fun c => keyOf [c]) =
      (.ok (Numeral.keys n) : Except ReadError (List (Key V))) := by
  induction n with
  | nil => rfl
  | cons k n ih =>
    obtain ⟨hk, hn⟩ := isDecimal_cons hn
    rw [List.map_cons, List.mapM_cons, keyOf_numeralChar hk, ih hn]
    rfl

/-! ## Scientific notation -/

/-- The keys that a number in scientific notation is read as. -/
def scientificKeys (mantissa : Numeral) (negative : Bool) (exponent : List Nat) : List (Key V) :=
  [Key.opening] ++ Numeral.keys mantissa
    ++ [Key.operator .times, .digit 1, .digit 0, .operator .power, .opening]
    ++ ((if negative then [Key.operator .minus] else []) ++ Numeral.keys (exponent.map some))
    ++ [Key.closing, .closing]

/-- An exponent that is negative or has no sign is read digit by digit. -/
theorem mapM_keyOf_exponent {exponent : List Nat} (hexponent : ∀ d ∈ exponent, d ≤ 9)
    (negative : Bool) :
    (((if negative then ['-'] else []) ++ (exponent.map some).map numeralChar).filter
        (· != '+')).mapM (fun c => keyOf [c]) =
      (.ok ((if negative then [.operator .minus] else []) ++ Numeral.keys (exponent.map some)) :
        Except ReadError (List (Key V))) := by
  have hdecimal : IsDecimal (exponent.map some) := by
    intro d hd
    obtain ⟨d', hd', heq⟩ := List.mem_map.1 hd
    exact Option.some.inj heq ▸ hexponent d' hd'
  -- the sign that is left out is no figure
  have hfilter : ((exponent.map some).map numeralChar).filter (· != '+') =
      (exponent.map some).map numeralChar := by
    refine List.filter_eq_self.2 fun c hc => ?_
    have hmantissa := isMantissa_of_isDecimal hdecimal c hc
    refine bne_iff_ne.2 ?_
    rintro rfl
    cases hmantissa
  rw [List.filter_append, hfilter, List.mapM_append, mapM_keyOf hdecimal]
  cases negative <;> rfl

/-- **A number in scientific notation** spells a bracketed product with a power of ten. -/
theorem spells_scientific {mantissa : Numeral} {exponent : List Nat} (hm : mantissa ≠ [])
    (hmantissa : IsDecimal mantissa) (he : exponent ≠ []) (hexponent : ∀ d ∈ exponent, d ≤ 9)
    (negative : Bool) (hrest : rest.head?.any Char.isDigit = false) :
    Spells answer (mantissa.map numeralChar ++ 'E' ::
      ((if negative then ['-'] else []) ++ (exponent.map some).map numeralChar)) rest
      (scientificKeys mantissa negative exponent) := by
  have hdigits : ∀ c ∈ (exponent.map some).map numeralChar, c.isDigit = true := by
    intro c hc
    obtain ⟨k, hk, rfl⟩ := List.mem_map.1 hc
    obtain ⟨d, hd, rfl⟩ := List.mem_map.1 hk
    rw [numeralChar, Nat.isDigit_digitChar, decide_eq_true_iff]
    exact Nat.lt_succ_of_le (hexponent d hd)
  -- with its sign and digits the number is one that the scan cuts off whole
  have hliteral : IsLiteral (mantissa.map numeralChar) (if negative then ['-'] else [])
      ((exponent.map some).map numeralChar) := by
    refine ⟨fun h => hm (List.map_eq_nil_iff.1 h), isMantissa_of_isDecimal hmantissa, ?_,
      fun h => he (List.map_eq_nil_iff.1 (List.map_eq_nil_iff.1 h)), hdigits⟩
    cases negative
    · exact .inl rfl
    · exact .inr ⟨'-', rfl, rfl⟩
  have hscan := scan?_scientific hliteral hrest
  rw [← List.append_assoc _ _ rest, ← List.cons_append, ← List.append_assoc] at hscan
  refine spells_of_scan? hscan ?_
  rw [keys, mapM_keyOf hmantissa, mapM_keyOf_exponent hexponent]
  rfl

end Keypad.Lexeme
