import Keypad.Proofs.Decimal.Rounding

/-! # Canonical numerals

A numeral is canonical if none of its digits can be left out: it has no zero in front of another
digit before the point, no zero at the end of the fraction, and no point without a fraction. The
text of a decimal that is trimmed is canonical. -/

namespace Keypad

/-! ## The digits of a natural number -/

/-- Only zero has a zero as its first digit. -/
theorem eq_zero_of_head?_toDigits {n : Nat} (h : (Nat.toDigits 10 n).head? = some '0') : n = 0 := by
  induction n using Nat.strongRecOn with
  | ind n ih =>
    by_cases hn : n < 10
    · rw [Nat.toDigits_of_lt_base hn, List.head?_cons, Option.some_inj] at h
      exact Nat.digitChar_eq_zero.1 h
    · rw [Nat.toDigits_of_base_le (by decide) (not_lt.1 hn),
        List.head?_append_of_ne_nil _ Nat.toDigits_ne_nil] at h
      have := ih (n / 10) (by omega) h
      omega

/-- The last digit is the remainder by ten. -/
theorem getLast?_toDigits (n : Nat) :
    (Nat.toDigits 10 n).getLast? = some (Nat.digitChar (n % 10)) := by
  by_cases hn : n < 10
  · rw [Nat.toDigits_of_lt_base hn, Nat.mod_eq_of_lt hn, List.getLast?_singleton]
  · rw [Nat.toDigits_of_base_le (by decide) (not_lt.1 hn), List.getLast?_concat]

/-! ## Canonical numerals -/

/-- The digits before and after the point make up a **canonical numeral** with the given text and
value. -/
structure IsCanonicalNumeral (text : String) (whole fraction : List Char) (value : Rat) : Prop where
  /-- The point stands between the digits if there are any after it. -/
  text_eq : text = String.ofList (whole ++ if fraction = [] then [] else '.' :: fraction)
  isDigit : ∀ c ∈ whole ++ fraction, c.isDigit = true
  whole_ne_nil : whole ≠ []
  /-- A zero in front stands alone before the point. -/
  leading : whole.head? = some '0' → whole = ['0']
  trailing : fraction.getLast? ≠ some '0'
  value_eq : decimalValue (whole.map digitOf) (fraction.map digitOf) = value

/-- Only zero is written as a single zero. -/
theorem IsCanonicalNumeral.value_eq_zero {whole fraction : List Char} {value : Rat}
    (h : IsCanonicalNumeral "0" whole fraction value) : value = 0 := by
  have htext : ['0'] = whole ++ if fraction = [] then [] else '.' :: fraction :=
    (congrArg String.toList h.text_eq).trans String.toList_ofList
  obtain ⟨c, cs, rfl⟩ := List.exists_cons_of_ne_nil h.whole_ne_nil
  obtain ⟨rfl, hrest⟩ := List.cons_eq_cons.1 htext
  obtain ⟨rfl, hfraction⟩ := List.append_eq_nil_iff.1 hrest.symm
  obtain rfl : fraction = [] := by
    by_contra hne
    rw [if_neg hne] at hfraction
    cases hfraction
  rw [← h.value_eq]
  simp [decimalValue, wholeValue, fractionValue, digitOf]

namespace Decimal

variable {d : Decimal}

/-- The digits are those of the coefficient, filled up with zeros to one before the point. -/
theorem length_digits (d : Decimal) :
    d.digits.length = max (d.places + 1) (Nat.toDigits 10 d.coefficient).length := by
  rw [digits, List.length_append, List.length_replicate]
  omega

/-- The digits are those of the coefficient if these are more than the places. -/
theorem digits_of_lt (h : d.places < (Nat.toDigits 10 d.coefficient).length) :
    d.digits = Nat.toDigits 10 d.coefficient := by
  rw [digits, Nat.sub_eq_zero_of_le h, List.replicate_zero, List.nil_append]

/-- Otherwise the only digit before the point is a zero. -/
theorem wholeDigits_of_le (h : (Nat.toDigits 10 d.coefficient).length ≤ d.places) :
    d.wholeDigits = ['0'] := by
  obtain ⟨k, hk⟩ := Nat.exists_eq_add_of_le h
  have hone : d.digits.length - d.places = 1 := by
    rw [length_digits]
    omega
  have hzeros : d.places + 1 - (Nat.toDigits 10 d.coefficient).length = k + 1 := by omega
  rw [wholeDigits, hone, digits, hzeros, List.replicate_succ, List.cons_append, List.take_succ_cons,
    List.take_zero]

/-- Without filling the first digit is that of the coefficient. -/
theorem head?_wholeDigits (h : d.places < (Nat.toDigits 10 d.coefficient).length) :
    d.wholeDigits.head? = (Nat.toDigits 10 d.coefficient).head? := by
  rw [wholeDigits, digits_of_lt h, List.head?_take]
  exact if_neg (by omega)

/-- A zero in front **stands alone** before the point. -/
theorem wholeDigits_leading (h : d.wholeDigits.head? = some '0') : d.wholeDigits = ['0'] := by
  rcases le_or_gt (Nat.toDigits 10 d.coefficient).length d.places with hle | hlt
  · exact wholeDigits_of_le hle
  · -- the first digit of the coefficient is a zero only if there is no other
    rw [head?_wholeDigits hlt] at h
    have hzero := eq_zero_of_head?_toDigits h
    have hplaces : d.places = 0 := by
      rw [hzero, Nat.toDigits_zero] at hlt
      exact Nat.lt_one_iff.1 hlt
    rw [wholeDigits, digits_of_lt hlt, hzero, hplaces]
    rfl

/-- The fraction of a trimmed decimal **ends in no zero**. -/
theorem fractionDigits_trailing (hd : d.IsTrimmed) : d.fractionDigits.getLast? ≠ some '0' := by
  intro h
  have hne : d.fractionDigits ≠ [] := by
    intro hnil
    rw [hnil] at h
    cases h
  have hplaces : d.places ≠ 0 := by
    rw [← length_fractionDigits]
    exact fun h0 => hne (List.length_eq_zero_iff.1 h0)
  have hlast : d.digits.getLast? = d.fractionDigits.getLast? := by
    rw [← wholeDigits_append_fractionDigits, List.getLast?_append_of_ne_nil _ hne]
  rw [← hlast, digits, List.getLast?_append_of_ne_nil _ Nat.toDigits_ne_nil, getLast?_toDigits,
    Option.some_inj, Nat.digitChar_eq_zero] at h
  exact hd.elim hplaces fun hmod => hmod h

/-- **Trimmed decimals are canonical** when written out. -/
theorem IsTrimmed.isCanonicalNumeral (hd : d.IsTrimmed) :
    IsCanonicalNumeral d.text d.wholeDigits d.fractionDigits d.value where
  text_eq := by
    have hnil : d.fractionDigits = [] ↔ d.places = 0 := by
      rw [← List.length_eq_zero_iff, length_fractionDigits]
    rw [text]
    by_cases h : d.places = 0
    · rw [if_pos h, if_pos (hnil.2 h), List.append_nil]
    · rw [if_neg h, if_neg (mt hnil.1 h)]
  isDigit := by
    rw [wholeDigits_append_fractionDigits]
    exact d.isDigit_of_mem_digits
  whole_ne_nil := d.wholeDigits_ne_nil
  leading := wholeDigits_leading
  trailing := fractionDigits_trailing hd
  value_eq := d.decimalValue_digits

/-! ## How many digits there are -/

/-- A bound on the coefficient bounds the digits from the first that is not a zero. -/
theorem length_dropWhile_digits_le {k : Nat} (hk : 0 < k) (h : d.coefficient < 10 ^ k) :
    (d.digits.dropWhile (· == '0')).length ≤ k := by
  have hzeros : ∀ c ∈ List.replicate (d.places + 1 - (Nat.toDigits 10 d.coefficient).length) '0',
      (c == '0') = true := by
    intro c hc
    rw [List.eq_of_mem_replicate hc]
    rfl
  rw [digits, List.dropWhile_append_of_pos hzeros]
  exact (List.length_dropWhile_le _ _).trans ((Nat.length_toDigits_le_iff (by decide) hk).2 h)

/-- A decimal from one up to ten has **one digit before the point**, which is not zero. -/
theorem exists_wholeDigits_eq (hge : 1 ≤ d.value) (hlt : d.value < 10) :
    ∃ c, d.wholeDigits = [c] ∧ c ≠ '0' := by
  have hscale : (0 : Rat) < 10 ^ d.places := by positivity
  rw [value, zpow_natCast] at hge hlt
  rw [le_div_iff₀ hscale, one_mul] at hge
  rw [div_lt_iff₀ hscale, ← pow_succ'] at hlt
  -- in units of the last place the coefficient has one digit more than there are places
  have hcoefficient : 10 ^ d.places ≤ d.coefficient := by exact_mod_cast hge
  have hbound : d.coefficient < 10 ^ (d.places + 1) := by exact_mod_cast hlt
  have hle := (Nat.length_toDigits_le_iff (b := 10) (by decide) d.places.succ_pos).2 hbound
  have hgt : d.places < (Nat.toDigits 10 d.coefficient).length := by
    by_contra hshort
    rcases Nat.eq_zero_or_pos d.places with h0 | hpos
    · exact hshort (h0 ▸ Nat.length_toDigits_pos)
    · exact absurd ((Nat.length_toDigits_le_iff (by decide) hpos).1 (not_lt.1 hshort))
        (not_lt.2 hcoefficient)
  have hone : d.wholeDigits.length = 1 := by
    rw [wholeDigits, List.length_take, length_digits]
    omega
  obtain ⟨c, hc⟩ := List.length_eq_one_iff.1 hone
  refine ⟨c, hc, ?_⟩
  -- a zero in front would be all of the digits
  rintro rfl
  have hhead := head?_wholeDigits hgt
  rw [hc, List.head?_cons] at hhead
  have hzero := eq_zero_of_head?_toDigits hhead.symm
  have : 0 < 10 ^ d.places := by positivity
  omega

end Decimal

end Keypad
