import Keypad.Decimal
import Keypad.Numeral
import Keypad.Proofs.Lexeme.Spells
import Mathlib.Algebra.Order.Field.Rat
import Mathlib.Tactic.FieldSimp
import Mathlib.Tactic.Ring

/-! # Decimals as numerals

A decimal is written with digits and at most one point, so its text is that of a numeral. The digits
spell the number that the decimal stands for. -/

namespace Keypad

open Lexeme

/-! ## Digits -/

/-- The digit that a character shows. -/
def digitOf (c : Char) : Nat := c.toNat - '0'.toNat

/-- The figure of a digit character is at most nine. -/
theorem digitOf_le {c : Char} (hc : c.isDigit = true) : digitOf c ≤ 9 := by
  have hbound := Char.isDigit_iff_toNat.1 hc
  have h0 : '0'.toNat = 48 := rfl
  have h9 : '9'.toNat = 57 := rfl
  rw [digitOf]
  omega

/-- A digit character is the one of its figure. -/
theorem digitChar_digitOf {c : Char} (hc : c.isDigit = true) : Nat.digitChar (digitOf c) = c := by
  have hbound := Char.isDigit_iff_toNat.1 hc
  have hlt := Nat.lt_succ_of_le (digitOf_le hc)
  have h0 : '0'.toNat = 48 := rfl
  refine Char.toNat_inj.1 ?_
  rw [Nat.toNat_digitChar_of_lt_ten hlt, digitOf]
  omega

/-- The number spelled by the digits before a point. -/
theorem wholeValue_digitOf (cs : List Char) :
    (wholeValue (cs.map digitOf) : Rat) = Nat.ofDigitChars 10 cs 0 := by
  -- the fold starts from zero, but its induction needs any start
  have hfold (init : Nat) : (cs.map digitOf).foldl
      (fun (acc : Rat) d => acc * (10 : Nat) + (d : Nat)) init = Nat.ofDigitChars 10 cs init := by
    induction cs generalizing init with
    | nil => rw [List.map_nil, List.foldl_nil, Nat.ofDigitChars_nil]
    | cons c cs ih =>
      rw [List.map_cons, List.foldl_cons, Nat.ofDigitChars_cons, ← ih]
      congr 1
      rw [digitOf]
      push_cast
      ring
  exact hfold 0

/-- The fraction spelled by the digits after a point. -/
theorem fractionValue_digitOf (cs : List Char) :
    (fractionValue (cs.map digitOf) : Rat) = Nat.ofDigitChars 10 cs 0 / 10 ^ cs.length := by
  -- from the front: a further digit moves all others down by one place
  induction cs with
  | nil =>
    rw [Nat.ofDigitChars_nil, List.length_nil, pow_zero, div_one]
    rfl
  | cons c cs ih =>
    have hdigits : Nat.ofDigitChars 10 (c :: cs) 0 =
        10 ^ cs.length * digitOf c + Nat.ofDigitChars 10 cs 0 := by
      rw [Nat.ofDigitChars_cons, Nat.mul_zero, Nat.zero_add, Nat.ofDigitChars_eq_ofDigitChars_zero,
        digitOf]
    rw [List.map_cons, fractionValue, List.foldr_cons, ← fractionValue, ih, hdigits,
      List.length_cons]
    push_cast
    field_simp
    ring

/-- The number spelled by digits before and after a point. -/
theorem decimalValue_digitOf (ws fs : List Char) :
    (decimalValue (ws.map digitOf) (fs.map digitOf) : Rat) =
      Nat.ofDigitChars 10 (ws ++ fs) 0 / 10 ^ fs.length := by
  have hdigits : Nat.ofDigitChars 10 (ws ++ fs) 0 =
      10 ^ fs.length * Nat.ofDigitChars 10 ws 0 + Nat.ofDigitChars 10 fs 0 := by
    rw [Nat.ofDigitChars_append]
    exact Nat.ofDigitChars_eq_ofDigitChars_zero
  rw [decimalValue, wholeValue_digitOf, fractionValue_digitOf, hdigits]
  push_cast
  field_simp

/-! ## Reading numerals -/

namespace Numeral

/-- A decimal numeral with one point at most is read. -/
theorem read_of_isDecimal {n : Numeral} (hn : IsDecimal n) (hpoints : n.points ≤ 1) :
    n.read = .ok (n.whole, n.fraction) := by
  have hfind : (n.whole ++ n.fraction.reverse).find? (9 < ·) = none := by
    rw [List.find?_eq_none]
    intro d hd hlt
    have hmem : some d ∈ n := by
      rcases List.mem_append.1 hd with hd | hd
      · obtain ⟨k, hk, rfl⟩ := List.mem_filterMap.1 hd
        exact (List.takeWhile_prefix _).subset hk
      · obtain ⟨k, hk, rfl⟩ := List.mem_filterMap.1 (List.mem_reverse.1 hd)
        exact (List.dropWhile_suffix _).subset hk
    exact absurd (hn d hmem) (Nat.not_le.2 (of_decide_eq_true hlt))
  rw [read, if_neg (Nat.not_lt.2 hpoints), hfind]

/-- Some digits, and a point and further digits if there are any. -/
def ofDigits (whole fraction : List Nat) : Numeral :=
  whole.map some ++ if fraction = [] then [] else none :: fraction.map some

/-- A row of digits has no point. -/
theorem isSome_of_mem_map_some {ds : List Nat} : ∀ k ∈ ds.map some, k.isSome = true := by
  intro k hk
  obtain ⟨d, -, rfl⟩ := List.mem_map.1 hk
  rfl

/-- A numeral made from digits has at most one point. -/
theorem points_ofDigits (whole fraction : List Nat) : (ofDigits whole fraction).points ≤ 1 := by
  have hnone (ds : List Nat) : (ds.map some).count none = 0 :=
    List.count_eq_zero.2 fun h => nomatch isSome_of_mem_map_some none h
  rw [points, ofDigits, List.count_append, hnone, Nat.zero_add]
  by_cases hfraction : fraction = []
  · rw [if_pos hfraction]
    decide
  · rw [if_neg hfraction, List.count_cons_self, hnone]

/-- A numeral made from decimal digits is decimal. -/
theorem isDecimal_ofDigits {whole fraction : List Nat} (hwhole : ∀ d ∈ whole, d ≤ 9)
    (hfraction : ∀ d ∈ fraction, d ≤ 9) : IsDecimal (ofDigits whole fraction) := by
  have hdigits {ds : List Nat} (hds : ∀ d ∈ ds, d ≤ 9) : IsDecimal (ds.map some) := by
    intro d hd
    obtain ⟨d', hd', heq⟩ := List.mem_map.1 hd
    exact Option.some.inj heq ▸ hds d' hd'
  intro d hd
  rcases List.mem_append.1 hd with hd | hd
  · exact hdigits hwhole d hd
  · by_cases hnil : fraction = []
    · rw [if_pos hnil] at hd
      cases hd
    · rw [if_neg hnil] at hd
      exact hdigits hfraction d ((List.mem_cons.1 hd).resolve_left nofun)

/-- The digits before the point are those it was made from. -/
theorem whole_ofDigits (whole fraction : List Nat) : (ofDigits whole fraction).whole = whole := by
  rw [Numeral.whole, ofDigits, List.takeWhile_append_of_pos isSome_of_mem_map_some]
  by_cases hfraction : fraction = []
  · rw [if_pos hfraction]
    simp
  · rw [if_neg hfraction]
    simp

/-- The digits after the point are those it was made from, and none if no point was set. -/
theorem fraction_ofDigits (whole fraction : List Nat) :
    (ofDigits whole fraction).fraction = fraction := by
  rw [Numeral.fraction, ofDigits, List.dropWhile_append_of_pos isSome_of_mem_map_some]
  by_cases hfraction : fraction = []
  · rw [if_pos hfraction, hfraction]
    rfl
  · rw [if_neg hfraction]
    simp

/-- **Reading back** digits and a point. -/
theorem read_ofDigits {whole fraction : List Nat} (hwhole : ∀ d ∈ whole, d ≤ 9)
    (hfraction : ∀ d ∈ fraction, d ≤ 9) :
    (ofDigits whole fraction).read = .ok (whole, fraction) := by
  rw [read_of_isDecimal (isDecimal_ofDigits hwhole hfraction) (points_ofDigits whole fraction),
    whole_ofDigits, fraction_ofDigits]

end Numeral

namespace Decimal

/-! ## The digits of a decimal -/

/-- A decimal is written in digits, the zeros that fill it up included. -/
theorem isDigit_of_mem_digits (d : Decimal) : ∀ c ∈ d.digits, c.isDigit = true := by
  intro c hc
  rcases List.mem_append.1 hc with hc | hc
  · rw [List.eq_of_mem_replicate hc]
    rfl
  · exact Nat.isDigit_of_mem_toDigits (by decide) (by decide) hc

/-- Before the point stand digits. -/
theorem isDigit_of_mem_wholeDigits (d : Decimal) : ∀ c ∈ d.wholeDigits, c.isDigit = true :=
  fun c hc => d.isDigit_of_mem_digits c (List.mem_of_mem_take hc)

/-- After the point stand digits. -/
theorem isDigit_of_mem_fractionDigits (d : Decimal) : ∀ c ∈ d.fractionDigits, c.isDigit = true :=
  fun c hc => d.isDigit_of_mem_digits c (List.mem_of_mem_drop hc)

/-- One digit at least stands before the point. -/
theorem wholeDigits_ne_nil (d : Decimal) : d.wholeDigits ≠ [] := by
  have hlen : d.places + 1 ≤ d.digits.length := by
    rw [digits, List.length_append, List.length_replicate]
    omega
  intro h
  have hzero := congrArg List.length h
  rw [wholeDigits, List.length_take, List.length_nil] at hzero
  omega

/-- The digits of a decimal spell its coefficient. -/
theorem ofDigitChars_digits (d : Decimal) : Nat.ofDigitChars 10 d.digits 0 = d.coefficient := by
  rw [digits, Nat.ofDigitChars_append, Nat.ofDigitChars_replicate_zero, Nat.mul_zero,
    Nat.ofDigitChars_ten_toDigits]

/-- **The digits of a decimal** before and after the point spell the number it stands for. -/
theorem decimalValue_digits (d : Decimal) :
    decimalValue (d.wholeDigits.map digitOf) (d.fractionDigits.map digitOf) = d.value := by
  rw [decimalValue_digitOf, wholeDigits_append_fractionDigits, ofDigitChars_digits,
    length_fractionDigits, value, zpow_natCast]

/-- A decimal without places is a whole number. -/
theorem value_whole (n : Nat) : (⟨n, 0⟩ : Decimal).value = n := by
  show (n : Rat) / 10 ^ (0 : Int) = n
  rw [zpow_zero, div_one]

/-! ## The numeral of a decimal -/

/-- The **numeral** that writes a decimal. -/
def numeral (d : Decimal) : Numeral :=
  .ofDigits (d.wholeDigits.map digitOf) (d.fractionDigits.map digitOf)

/-- Digit characters have decimal figures. -/
theorem digitOf_le_of_isDigit {cs : List Char} (hcs : ∀ c ∈ cs, c.isDigit = true) :
    ∀ d ∈ cs.map digitOf, d ≤ 9 := by
  intro d hd
  obtain ⟨c, hc, rfl⟩ := List.mem_map.1 hd
  exact digitOf_le (hcs c hc)

/-- The numeral of a decimal is decimal. -/
theorem isDecimal_numeral (d : Decimal) : IsDecimal d.numeral :=
  Numeral.isDecimal_ofDigits (digitOf_le_of_isDigit d.isDigit_of_mem_wholeDigits)
    (digitOf_le_of_isDigit d.isDigit_of_mem_fractionDigits)

/-- The numeral of a decimal is read as its digits on both sides of the point. -/
theorem read_numeral (d : Decimal) :
    d.numeral.read = .ok (d.wholeDigits.map digitOf, d.fractionDigits.map digitOf) :=
  Numeral.read_ofDigits (digitOf_le_of_isDigit d.isDigit_of_mem_wholeDigits)
    (digitOf_le_of_isDigit d.isDigit_of_mem_fractionDigits)

/-- The numeral of a decimal starts with a digit. -/
theorem exists_numeral_eq_cons (d : Decimal) : ∃ k n, d.numeral = some k :: n := by
  obtain ⟨c, cs, hcs⟩ := List.exists_cons_of_ne_nil d.wholeDigits_ne_nil
  rw [numeral, hcs]
  exact ⟨digitOf c, _, rfl⟩

/-- Digit characters are written back as they were. -/
theorem map_numeralChar_digitOf {cs : List Char} (hcs : ∀ c ∈ cs, c.isDigit = true) :
    ((cs.map digitOf).map some).map numeralChar = cs := by
  rw [List.map_map, List.map_map]
  refine (List.map_congr_left fun c hc => ?_).trans (List.map_id cs)
  exact digitChar_digitOf (hcs c hc)

/-- The text of a decimal shows its numeral. -/
theorem toList_text (d : Decimal) : d.text.toList = d.numeral.map numeralChar := by
  -- the text asks for the places and the numeral for the digits after the point
  have hnil : d.fractionDigits.map digitOf = [] ↔ d.places = 0 := by
    rw [List.map_eq_nil_iff, ← List.length_eq_zero_iff, length_fractionDigits]
  rw [text, String.toList_ofList, numeral, Numeral.ofDigits, List.map_append,
    map_numeralChar_digitOf d.isDigit_of_mem_wholeDigits]
  by_cases hplaces : d.places = 0
  · rw [if_pos hplaces, if_pos (hnil.2 hplaces), List.map_nil, List.append_nil]
  · rw [if_neg hplaces, if_neg fun h => hplaces (hnil.1 h), List.map_cons,
      map_numeralChar_digitOf d.isDigit_of_mem_fractionDigits]
    rfl

end Decimal

end Keypad
