import Keypad.Proofs.Decimal.Numeral
import Keypad.Proofs.Display.Shown
import Keypad.Proofs.Expr.Denotes
import Keypad.Proofs.Grammar.Longest
import Keypad.Session

/-! # Typing a displayed value in again

The text of a value whose parts are finite is read as keys, the keys are parsed, and what they denote
is the number that the text shows. Its pieces are put together in the same way as the text: a
numeral is a factor, a number in scientific notation is a bracketed product, an imaginary part is a
product with the imaginary unit, a sign is a negation, and the imaginary part is added to the real
one or subtracted from it. -/

namespace Keypad

open Grammar Lexeme Keypad.Expr

namespace Display

variable {answer : Value}

/-- A number may end in front of some text: neither digits nor an exponent follow. -/
def EndsNumber (rest : List Char) : Prop :=
  rest.head?.any Char.isDigit = false ∧ NoExponent rest

/-- A number may end at the end of the text. -/
theorem endsNumber_nil : EndsNumber [] := ⟨rfl, noExponent_nil⟩

/-- A number may end in front of anything but a mantissa or an exponent. -/
theorem endsNumber_cons {c : Char} {cs : List Char} (h : isMantissa c = false) (hE : c ≠ 'E') :
    EndsNumber (c :: cs) := by
  refine ⟨?_, noExponent_cons h hE⟩
  simp only [isMantissa, Bool.or_eq_false_iff] at h
  exact h.1.1

/-- A text **reads as factors** that denote a number. The keys are few enough for any place. -/
def ReadsAsFactors (answer : Value) (w : List Char) (z : Complex Rat) : Prop :=
  ∃ (b : Bool) (fs : Factors Value b), Denotes (.group fs.trees) z ∧ weight fs.keys ≤ 9 ∧
    ∀ rest, EndsNumber rest → Spells answer w rest fs.keys

/-- A text **reads as a phrase** that denotes a number, with keys of a limited weight. -/
def ReadsAsPhrase (answer : Value) (limit : Nat) (w : List Char) (z : Complex Rat) : Prop :=
  ∃ p : Phrase Value .low, Denotes p.tree z ∧ weight p.keys ≤ limit ∧
    ∀ rest, EndsNumber rest → Spells answer w rest p.keys

/-! ## Numerals -/

/-- Numerals have no weight, as they open no level. -/
theorem weight_numeral {V : Type} (n : Numeral) : weight (Numeral.keys n : List (Key V)) = 0 := by
  induction n with
  | nil => rfl
  | cons k n ih =>
    rw [Numeral.keys, List.map_cons, weight_cons, ← Numeral.keys, ih]
    cases k <;> rfl

/-- The numeral of a decimal denotes its value. -/
theorem denotes_decimal (d : Decimal) : Denotes (numeralTree d.numeral) ⟨d.value, 0⟩ := by
  obtain ⟨k, n, hcons⟩ := d.exists_numeral_eq_cons
  have hpoint : d.numeral ≠ [none] := by
    rw [hcons]
    exact nofun
  rw [← d.decimalValue_digits]
  exact denotes_numeral hpoint d.read_numeral

/-- The factor that a decimal is read as. -/
def decimalFactor (d : Decimal) : Factor Value true :=
  .numeral d.numeral (by
    obtain ⟨k, n, hcons⟩ := d.exists_numeral_eq_cons
    rw [hcons]
    exact List.cons_ne_nil _ _)

/-- A decimal spells its factor in front of anything but an exponent. -/
theorem spells_decimal (d : Decimal) {rest : List Char} (hrest : NoExponent rest) :
    Spells answer d.text.toList rest (decimalFactor d).keys := by
  rw [d.toList_text]
  exact spells_numeral d.isDecimal_numeral hrest

/-! ## Exponents -/

/-- The digits of an exponent, without its sign. -/
def exponentDigits (e : Int) : List Nat := (Nat.toDigits 10 e.natAbs).map digitOf

/-- Numbers to the base ten are written in digits. -/
theorem isDigit_of_mem_toDigits (n : Nat) : ∀ c ∈ Nat.toDigits 10 n, c.isDigit = true :=
  fun _ hc => Nat.isDigit_of_mem_toDigits (by decide) (by decide) hc

/-- The text of an exponent is an optional hyphen and its digits. -/
theorem toList_repr_exponent (e : Int) :
    e.repr.toList = (if decide (e < 0) then ['-'] else []) ++
      ((exponentDigits e).map some).map numeralChar := by
  rw [exponentDigits, Decimal.map_numeralChar_digitOf (isDigit_of_mem_toDigits _)]
  cases e with
  | ofNat n =>
    have hneg : ¬ Int.ofNat n < 0 := Int.not_lt.2 (Int.natCast_nonneg n)
    rw [decide_eq_false hneg, if_neg Bool.false_ne_true, List.nil_append]
    exact String.toList_ofList
  | negSucc n =>
    rw [decide_eq_true (Int.negSucc_lt_zero n), if_pos rfl]
    show ("-" ++ Nat.repr (n + 1)).toList = _
    rw [String.toList_append]
    exact congrArg _ String.toList_ofList

/-- Every exponent has a digit, zero included. -/
theorem exponentDigits_ne_nil (e : Int) : exponentDigits e ≠ [] :=
  fun h => Nat.toDigits_ne_nil (List.map_eq_nil_iff.1 h)

/-- The digits of an exponent are decimal. -/
theorem exponentDigits_le (e : Int) : ∀ d ∈ exponentDigits e, d ≤ 9 :=
  Decimal.digitOf_le_of_isDigit (isDigit_of_mem_toDigits _)

/-- The digits of an exponent denote its magnitude. -/
theorem denotes_exponentDigits (e : Int) :
    Denotes (numeralTree ((exponentDigits e).map some)) ⟨(e.natAbs : Rat), 0⟩ := by
  have hpoint : (exponentDigits e).map some ≠ [none] := by
    intro h
    obtain ⟨d, -, hd⟩ := List.mem_map.1 (h ▸ List.mem_cons_self : none ∈ (exponentDigits e).map some)
    cases hd
  -- digits without a point are read as a whole part alone
  have hread : Numeral.read ((exponentDigits e).map some) = .ok (exponentDigits e, []) := by
    have hfraction : ∀ d ∈ ([] : List Nat), d ≤ 9 := nofun
    have h := Numeral.read_ofDigits (exponentDigits_le e) hfraction
    rw [Numeral.ofDigits, if_pos rfl, List.append_nil] at h
    exact h
  have hvalue : (decimalValue (exponentDigits e) [] : Rat) = e.natAbs := by
    have h := decimalValue_digitOf (Nat.toDigits 10 e.natAbs) []
    rw [List.append_nil, Nat.ofDigitChars_ten_toDigits, List.length_nil, pow_zero, div_one] at h
    exact h
  rw [← hvalue]
  exact denotes_numeral hpoint hread

/-- The factor that the digits of an exponent are read as. -/
def exponentFactor (e : Int) : Factor Value true :=
  .numeral ((exponentDigits e).map some) fun h => exponentDigits_ne_nil e (List.map_eq_nil_iff.1 h)

/-- The phrase that an exponent is read as. -/
def exponentPhrase (e : Int) : Phrase Value .low :=
  if e < 0 then .leading .negate rfl ((exponentFactor e).operand .low)
  else .operand ((exponentFactor e).operand .low)

/-- An exponent is typed as an optional minus and its digits. -/
theorem keys_exponentPhrase (e : Int) :
    (exponentPhrase e).keys = (if decide (e < 0) then [.operator .minus] else []) ++
      Numeral.keys ((exponentDigits e).map some) := by
  rw [exponentPhrase]
  by_cases he : e < 0
  · rw [if_pos he, decide_eq_true he]
    exact congrArg (Key.operator .minus :: ·) ((exponentFactor e).keys_operand .low)
  · rw [if_neg he, decide_eq_false he]
    exact (exponentFactor e).keys_operand .low

/-- An exponent denotes itself. -/
theorem denotes_exponentPhrase (e : Int) : Denotes (exponentPhrase e).tree ⟨(e : Rat), 0⟩ := by
  have hdigits := (denotes_exponentDigits e).group_singleton
  rw [exponentPhrase]
  -- a negative exponent is shown, and read, as the negation of its digits
  by_cases he : e < 0
  · have hnat : (e : Rat) = -(e.natAbs : Rat) := by
      rw [← Int.cast_natCast, ← Int.cast_neg]
      congr 1
      omega
    rw [if_pos he, hnat, ← Complex.neg_real]
    show Denotes (.leading .negate ((exponentFactor e).operand .low).tree) _
    rw [Factor.tree_operand]
    exact hdigits.negate
  · have hnat : (e : Rat) = (e.natAbs : Rat) := by
      rw [← Int.cast_natCast]
      congr 1
      omega
    rw [if_neg he, Phrase.tree, Factor.tree_operand, hnat]
    exact hdigits

/-! ## Magnitudes -/

/-- The base of scientific notation. -/
def tenFactor : Factor Value true := .numeral [some 1, some 0] nofun

/-- The base of scientific notation denotes ten. -/
theorem denotes_ten : Denotes (numeralTree [some 1, some 0]) ⟨10, 0⟩ := by
  have hvalue : (decimalValue [1, 0] [] : Rat) = 10 := by
    norm_num [decimalValue, wholeValue, fractionValue]
  rw [← hvalue]
  exact denotes_numeral (by decide) rfl

/-- The product that a number in scientific notation is read as. -/
def scientificPhrase (d : Decimal) (e : Int) : Phrase Value .middle :=
  .binary (.operand ((decimalFactor d).operand .middle)) .multiply rfl
    (.high (.binary (.operand (tenFactor.operand .high)) .power rfl
      ((Factor.bracketed (exponentPhrase e)).operand .high)))

/-- The factor that a number in scientific notation is read as. -/
def scientificFactor (d : Decimal) (e : Int) : Factor Value false :=
  .bracketed (scientificPhrase d e).toLow

/-- The factor of a number in scientific notation has the keys that such a lexeme is read as. -/
theorem keys_scientificFactor (d : Decimal) (e : Int) :
    (scientificFactor d e).keys = scientificKeys d.numeral (decide (e < 0)) (exponentDigits e) := by
  rw [scientificFactor, Factor.keys, Phrase.keys_toLow, scientificKeys, ← keys_exponentPhrase]
  show Key.opening :: (Numeral.keys d.numeral ++ Key.operator .times ::
    ([.digit 1, .digit 0] ++ Key.operator .power ::
      (Key.opening :: (exponentPhrase e).keys ++ [.closing]))) ++ [.closing] = _
  simp only [List.cons_append, List.nil_append, List.append_assoc]

/-- Both of its brackets and its sign together weigh little. -/
theorem weight_scientificFactor (d : Decimal) (e : Int) : weight (scientificFactor d e).keys ≤ 9 := by
  have hsign : weight (if decide (e < 0) then [.operator .minus] else [] : List (Key Value)) ≤ 1 := by
    cases decide (e < 0) <;> decide
  have hpower : weight [.operator .times, .digit 1, .digit 0, .operator .power,
      (.opening : Key Value)] = 2 := rfl
  have hopening : weight [(.opening : Key Value)] = 0 := rfl
  have hclosing : weight [.closing, (.closing : Key Value)] = 6 := rfl
  rw [keys_scientificFactor, scientificKeys]
  simp only [weight_append, weight_numeral, hpower, hopening, hclosing]
  omega

/-- A number in scientific notation denotes a multiple of a power of ten. -/
theorem denotes_scientificFactor (d : Decimal) (e : Int) :
    Denotes (scientificFactor d e).tree ⟨d.value * 10 ^ e, 0⟩ := by
  have hten : (10 : Rat) ≠ 0 := by norm_num
  have hpower := denotes_ten.group_singleton.power hten (denotes_exponentPhrase e).group_singleton
  rw [scientificFactor, Factor.tree, Phrase.tree_toLow, ← Complex.mul_real]
  exact (denotes_decimal d).group_singleton.multiply hpower

/-- A number in scientific notation spells its factor unless a digit follows. -/
theorem spells_scientificFactor (d : Decimal) (e : Int) {rest : List Char}
    (hrest : rest.head?.any Char.isDigit = false) :
    Spells answer (Magnitude.scientific d e).text.toList rest (scientificFactor d e).keys := by
  have hnumeral : d.numeral ≠ [] := by
    obtain ⟨k, n, hcons⟩ := d.exists_numeral_eq_cons
    rw [hcons]
    exact List.cons_ne_nil _ _
  rw [Magnitude.text, String.toList_append, String.toList_append, d.toList_text,
    toList_repr_exponent, List.append_assoc, keys_scientificFactor]
  exact spells_scientific hnumeral d.isDecimal_numeral (exponentDigits_ne_nil e)
    (exponentDigits_le e) _ hrest

/-- A magnitude reads as the number it is shown as. -/
theorem readsAsFactors_magnitude {m : Magnitude} {q : Rat} (h : m.value? = some q) :
    ReadsAsFactors answer m.text.toList ⟨q, 0⟩ := by
  cases m with
  | infinite => cases h
  | fixed d =>
    obtain rfl := Option.some.inj h
    refine ⟨true, .single (decimalFactor d), (denotes_decimal d).group_singleton, ?_, ?_⟩
    · rw [Factors.keys, decimalFactor, Factor.keys, weight_numeral]
      exact Nat.zero_le 9
    · exact fun rest hrest => spells_decimal d hrest.2
  | scientific d e =>
    obtain rfl := Option.some.inj h
    exact ⟨false, .single (scientificFactor d e), (denotes_scientificFactor d e).group_singleton,
      weight_scientificFactor d e, fun rest hrest => spells_scientificFactor d e hrest.1⟩

/-! ## Parts -/

/-- An `i` after a text that reads as factors multiplies all of it. -/
theorem ReadsAsFactors.unit {w : List Char} {q : Rat} (h : ReadsAsFactors answer w ⟨q, 0⟩) :
    ReadsAsFactors answer (w ++ ['i']) ⟨0, q⟩ := by
  obtain ⟨b, fs, hdenotes, hweight, hspells⟩ := h
  refine ⟨false, .snoc fs (.constant .i) (Bool.and_false b), ?_, ?_, fun rest _ => ?_⟩
  · rw [← Complex.mul_unit]
    exact hdenotes.group_append denotes_unit
  · rw [Factors.keys, weight_append]
    exact hweight
  · exact (hspells ('i' :: rest) (endsNumber_cons rfl (by decide))).append
      (spells_constant .i nofun rest)

/-- A coefficient and its `i` read as an imaginary number, also where a one is left out. -/
theorem readsAsFactors_coefficient {m : Magnitude} {q : Rat} (h : m.value? = some q) :
    ReadsAsFactors answer (m.coefficient.toList ++ ['i']) ⟨0, q⟩ := by
  rw [Magnitude.coefficient]
  -- a coefficient of one leaves a bare `i`, and any other one a product with `i`
  by_cases hone : m = .fixed ⟨1, 0⟩
  · subst hone
    have hq : q = 1 := (Option.some.inj h).symm.trans ((Decimal.value_whole 1).trans Nat.cast_one)
    rw [if_pos rfl, hq]
    exact ⟨false, .single (.constant .i), denotes_unit.group_singleton, Nat.zero_le 9,
      fun rest _ => spells_constant .i nofun rest⟩
  · rw [if_neg hone]
    exact (readsAsFactors_magnitude h).unit

/-- A sign before a text that reads as factors. -/
theorem readsAsPhrase_signed (negative : Bool) {w : List Char} {z : Complex Rat}
    (h : ReadsAsFactors answer w z) :
    ReadsAsPhrase answer 10 ((if negative then ['-'] else []) ++ w) (if negative then -z else z) := by
  obtain ⟨b, fs, hdenotes, hweight, hspells⟩ := h
  rw [← Factors.tree_operand fs .low] at hdenotes
  rw [← Factors.keys_operand fs .low] at hweight hspells
  cases negative with
  | false => exact ⟨.operand (fs.operand .low), hdenotes, Nat.le_succ_of_le hweight, hspells⟩
  | true =>
    refine ⟨.leading .negate rfl (fs.operand .low), hdenotes.negate, ?_, fun rest hrest => ?_⟩
    · show weight (.operator .minus :: (fs.operand .low).keys) ≤ 10
      rw [weight_cons, Key.weight]
      omega
    · exact (spells_hyphen (w ++ rest)).append (hspells rest hrest)

/-- A part standing alone reads as the number it is shown as. -/
theorem readsAsPhrase_part {p : Part} {q : Rat} (h : p.value? = some q) :
    ReadsAsPhrase answer 10 p.text.toList ⟨q, 0⟩ := by
  cases p with
  | notANumber => cases h
  | nothing =>
    -- a part that is nothing is shown as the digit zero
    obtain rfl : 0 = q := Option.some.inj h
    have hzero : (Magnitude.fixed ⟨0, 0⟩).value? = some 0 :=
      congrArg some ((Decimal.value_whole 0).trans Nat.cast_zero)
    exact readsAsPhrase_signed false (readsAsFactors_magnitude hzero)
  | shown negative m =>
    obtain ⟨r, hr, hq⟩ := Option.map_eq_some_iff.1 h
    have hm : ReadsAsFactors answer m.text.toList ⟨r, 0⟩ := readsAsFactors_magnitude hr
    have hread := readsAsPhrase_signed negative hm
    rw [Complex.signed_real, hq] at hread
    rw [Part.text, String.toList_append]
    cases negative <;> exact hread

/-! ## Both parts -/

/-- A phrase, a sign and factors read as a sum or a difference. -/
theorem ReadsAsPhrase.joined {v w : List Char} {z u : Complex Rat} (h : ReadsAsPhrase answer 10 v z)
    (negative : Bool) (h' : ReadsAsFactors answer w u) :
    ReadsAsPhrase answer 20 (v ++ (if negative then '-' else '+') :: w)
      (if negative then z - u else z + u) := by
  obtain ⟨p, hdenotes, hweight, hspells⟩ := h
  obtain ⟨b, fs, hdenotes', hweight', hspells'⟩ := h'
  rw [← Factors.tree_operand fs .low] at hdenotes'
  rw [← Factors.keys_operand fs .low] at hweight' hspells'
  -- the sign between the parts is read as the operator that joins them
  cases negative with
  | false =>
    refine ⟨.binary p .add rfl (fs.operand .low), hdenotes.add hdenotes', ?_, fun rest hrest => ?_⟩
    · show weight (p.keys ++ .operator .plus :: (fs.operand .low).keys) ≤ 20
      rw [weight_append, weight_cons, Key.weight]
      omega
    · exact (hspells ('+' :: w ++ rest) (endsNumber_cons rfl (by decide))).append
        ((spells_operator .plus (w ++ rest)).append (hspells' rest hrest))
  | true =>
    refine ⟨.binary p .subtract rfl (fs.operand .low), hdenotes.subtract hdenotes', ?_,
      fun rest hrest => ?_⟩
    · show weight (p.keys ++ .operator .minus :: (fs.operand .low).keys) ≤ 20
      rw [weight_append, weight_cons, Key.weight]
      omega
    · exact (hspells ('-' :: w ++ rest) (endsNumber_cons rfl (by decide))).append
        ((spells_hyphen (w ++ rest)).append (hspells' rest hrest))

/-- The limit of the weight may be raised. -/
theorem ReadsAsPhrase.mono {w : List Char} {z : Complex Rat} (h : ReadsAsPhrase answer 10 w z) :
    ReadsAsPhrase answer 20 w z := by
  obtain ⟨p, hdenotes, hweight, hspells⟩ := h
  exact ⟨p, hdenotes, Nat.le_trans hweight (by decide), hspells⟩

/-- Parts that are shown as numbers are joined to a text that reads as these numbers. -/
theorem readsAsPhrase_join {re im : Part} {p q : Rat} (hre : re.value? = some p)
    (him : im.value? = some q) : ReadsAsPhrase answer 20 (join re im).toList ⟨p, q⟩ := by
  -- along the cases of `join`; those of what is not a number have no value
  cases im with
  | notANumber => cases him
  | nothing =>
    obtain rfl : 0 = q := Option.some.inj him
    cases re with
    | notANumber => cases hre
    | nothing => exact (readsAsPhrase_part hre).mono
    | shown negative m => exact (readsAsPhrase_part hre).mono
  | shown negative m =>
    obtain ⟨r, hr, rfl⟩ := Option.map_eq_some_iff.1 him
    have hunit : ReadsAsFactors answer (m.coefficient.toList ++ ['i']) ⟨0, r⟩ :=
      readsAsFactors_coefficient hr
    cases re with
    | notANumber => cases hre
    | nothing =>
      obtain rfl : 0 = p := Option.some.inj hre
      -- the imaginary part stands alone, with its sign in front
      have hread := (readsAsPhrase_signed negative hunit).mono
      rw [Complex.signed_imag] at hread
      rw [join, String.toList_append, String.toList_append, List.append_assoc]
      cases negative <;> exact hread
    | shown negative' m' =>
      -- both parts are shown, with the sign of the imaginary one between them
      have hpart : ReadsAsPhrase answer 10 (Part.shown negative' m').text.toList ⟨p, 0⟩ :=
        readsAsPhrase_part hre
      have hread := hpart.joined negative hunit
      rw [Complex.joined_parts] at hread
      have htext : join (.shown negative' m') (.shown negative m) =
          (Part.shown negative' m').text ++ (if negative then "-" else "+") ++ m.coefficient ++ "i" :=
        rfl
      rw [htext, String.toList_append, String.toList_append, String.toList_append,
        List.append_assoc, List.append_assoc]
      cases negative <;> exact hread

end Display

end Keypad
