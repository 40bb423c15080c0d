import Keypad.Proofs.Decimal.Numeral
import Mathlib

/-! # Rounding to decimals

Rounding to a number of places is off by at most half a unit of the last place. Trimming changes the
digits that are written but not the number. In scientific notation the first digit is that of the
number itself, unless rounding carries all the way up, and then it is a one. -/

namespace Keypad

variable {q : Rat}

/-! ## Numbers as quotients -/

/-- Dividing with a remainder. -/
theorem natCast_div_eq (m : Nat) {k : Nat} (hk : 0 < k) :
    (m : Rat) / k = (m / k : Nat) + (m % k : Nat) / k := by
  have hpos : (0 : Rat) < k := by exact_mod_cast hk
  have hdivision : (m : Rat) = k * (m / k : Nat) + (m % k : Nat) := by
    exact_mod_cast (Nat.div_add_mod m k).symm
  rw [div_eq_iff hpos.ne', add_mul, div_mul_cancel₀ _ hpos.ne', mul_comm]
  exact hdivision

/-- A magnitude as a quotient of natural numbers. -/
theorem abs_eq_natAbs_div (q : Rat) : |q| = q.num.natAbs / q.den := by
  conv_lhs => rw [← Rat.num_div_den q]
  rw [abs_div, Nat.abs_cast, Nat.cast_natAbs, Int.cast_abs]

/-! ## Rounding to whole numbers -/

/-- **Rounding goes to a nearest whole number.** -/
theorem abs_roundHalfEven_sub_le (hq : 0 ≤ q) : |(roundHalfEven q : Rat) - q| ≤ 1 / 2 := by
  have hden : (0 : Rat) < q.den := by exact_mod_cast q.den_pos
  have hdivision := natCast_div_eq q.num.natAbs q.den_pos
  have hrest : ((q.num.natAbs % q.den : Nat) : Rat) / q.den ≤ 1 := by
    rw [div_le_one hden]
    exact_mod_cast (Nat.mod_lt _ q.den_pos).le
  rw [← abs_eq_natAbs_div, abs_of_nonneg hq] at hdivision
  rw [roundHalfEven, abs_le]
  split
  · -- up to half a unit is dropped
    next h =>
    have hhalf : ((q.num.natAbs % q.den : Nat) : Rat) / q.den ≤ 1 / 2 := by
      rw [div_le_div_iff₀ hden two_pos]
      exact_mod_cast (by omega : q.num.natAbs % q.den * 2 ≤ 1 * q.den)
    have hnonneg : (0 : Rat) ≤ (q.num.natAbs % q.den : Nat) / q.den := by positivity
    constructor <;> linarith
  · next h =>
    have hhalf : (1 : Rat) / 2 ≤ (q.num.natAbs % q.den : Nat) / q.den := by
      rw [div_le_div_iff₀ two_pos hden]
      exact_mod_cast (by omega : 1 * q.den ≤ q.num.natAbs % q.den * 2)
    push_cast
    constructor <;> linarith

/-- Rounding stays below a whole number. -/
theorem roundHalfEven_le {n : Nat} (hq : 0 ≤ q) (h : q ≤ n) : roundHalfEven q ≤ n := by
  have hnear := (abs_le.1 (abs_roundHalfEven_sub_le hq)).2
  have hcast : (roundHalfEven q : Rat) < (n + 1 : Nat) := by
    push_cast
    linarith
  exact Nat.le_of_lt_succ (by exact_mod_cast hcast)

/-- Rounding stays above a whole number. -/
theorem le_roundHalfEven {n : Nat} (h : n ≤ q) : n ≤ roundHalfEven q := by
  have hq : 0 ≤ q := (Nat.cast_nonneg n).trans h
  have hnear := (abs_le.1 (abs_roundHalfEven_sub_le hq)).1
  have hcast : (n : Rat) < (roundHalfEven q + 1 : Nat) := by
    push_cast
    linarith
  exact Nat.le_of_lt_succ (by exact_mod_cast hcast)

/-- **What is rounded to zero** is at most a half. -/
theorem roundHalfEven_eq_zero_iff (hq : 0 ≤ q) : roundHalfEven q = 0 ↔ q ≤ 1 / 2 := by
  have hnear := abs_le.1 (abs_roundHalfEven_sub_le hq)
  constructor
  · intro h
    rw [h, Nat.cast_zero] at hnear
    linarith
  · intro h
    rcases h.lt_or_eq with hlt | rfl
    · have hcast : (roundHalfEven q : Rat) < (1 : Nat) := by
        push_cast
        linarith
      exact Nat.lt_one_iff.1 (by exact_mod_cast hcast)
    · -- the even neighbour of a half is zero
      norm_num [roundHalfEven]

/-! ## Rounding to places -/

namespace Decimal

/-- **Rounding to places** is off by at most half a unit of the last one. -/
theorem abs_value_round_sub_le (places : Nat) (hq : 0 ≤ q) :
    |(round places q).value - q| ≤ 1 / 2 / 10 ^ places := by
  have hscale : (0 : Rat) < 10 ^ places := by positivity
  have hnear := abs_roundHalfEven_sub_le (mul_nonneg hq hscale.le)
  have hunits : (round places q).value - q =
      (roundHalfEven (q * 10 ^ places) - q * 10 ^ places) / 10 ^ places := by
    rw [sub_div, mul_div_cancel_right₀ _ hscale.ne', value, round, zpow_natCast]
  rw [hunits, abs_div, abs_of_pos hscale]
  exact div_le_div_of_nonneg_right hnear hscale.le

/-- Rounding to places stays on either side of a whole number. -/
theorem value_round_le {n : Nat} (places : Nat) (hq : 0 ≤ q) (h : q ≤ n) :
    (round places q).value ≤ n := by
  have hscale : (0 : Rat) < 10 ^ places := by positivity
  have hle : roundHalfEven (q * 10 ^ places) ≤ n * 10 ^ places := by
    refine roundHalfEven_le (mul_nonneg hq hscale.le) ?_
    push_cast
    exact mul_le_mul_of_nonneg_right h hscale.le
  rw [value, round, zpow_natCast, div_le_iff₀ hscale]
  exact_mod_cast hle

/-- Rounding does not fall below a whole number. -/
theorem le_value_round {n : Nat} (places : Nat) (h : n ≤ q) : n ≤ (round places q).value := by
  have hscale : (0 : Rat) < 10 ^ places := by positivity
  have hle : n * 10 ^ places ≤ roundHalfEven (q * 10 ^ places) := by
    refine le_roundHalfEven ?_
    push_cast
    exact mul_le_mul_of_nonneg_right h hscale.le
  rw [value, round, zpow_natCast, le_div_iff₀ hscale]
  exact_mod_cast hle

/-- A decimal is zero exactly if its coefficient is. -/
theorem value_eq_zero_iff (d : Decimal) : d.value = 0 ↔ d.coefficient = 0 := by
  have hscale : (10 : Rat) ^ (d.places : Int) ≠ 0 := by positivity
  rw [value, div_eq_zero_iff, or_iff_left hscale, Nat.cast_eq_zero]

/-- What is rounded to places is zero exactly if it is at most half a unit of the last one. -/
theorem value_round_eq_zero_iff (places : Nat) (hq : 0 ≤ q) :
    (round places q).value = 0 ↔ q * 10 ^ places ≤ 1 / 2 := by
  rw [value_eq_zero_iff, round, zpow_natCast]
  exact roundHalfEven_eq_zero_iff (by positivity)

/-! ## Trimming -/

/-- A decimal is **trimmed** if its fraction does not end in a zero. -/
def IsTrimmed (d : Decimal) : Prop := d.places = 0 ∨ d.coefficient % 10 ≠ 0

/-- A zero that is removed takes a place with it. -/
theorem value_div_ten {c p : Nat} (h : c % 10 = 0) :
    (⟨c / 10, p⟩ : Decimal).value = (⟨c, p + 1⟩ : Decimal).value := by
  obtain ⟨k, rfl⟩ := Nat.dvd_of_mod_eq_zero h
  rw [value, value, Nat.mul_div_cancel_left _ (by decide), zpow_natCast, zpow_natCast]
  push_cast
  rw [pow_succ', mul_div_mul_left _ _ (by norm_num)]

/-- **Trimming** gives a trimmed decimal of the same number, with no further digits. -/
theorem trimPlaces_spec (c p : Nat) :
    (trimPlaces c p).IsTrimmed ∧ (trimPlaces c p).value = (⟨c, p⟩ : Decimal).value ∧
      (trimPlaces c p).places ≤ p ∧ (trimPlaces c p).coefficient ≤ c := by
  induction p generalizing c with
  | zero => exact ⟨.inl rfl, rfl, le_rfl, le_rfl⟩
  | succ p ih =>
    rw [trimPlaces]
    by_cases h : c % 10 = 0
    · obtain ⟨htrimmed, hvalue, hplaces, hcoefficient⟩ := ih (c / 10)
      rw [if_pos h]
      exact ⟨htrimmed, hvalue.trans (value_div_ten h), hplaces.trans (Nat.le_succ p),
        hcoefficient.trans (Nat.div_le_self c 10)⟩
    · rw [if_neg h]
      exact ⟨.inr h, rfl, le_rfl, le_rfl⟩

variable (d : Decimal)

/-- What is trimmed ends in no zero after the point. -/
theorem isTrimmed_trim : d.trim.IsTrimmed := (trimPlaces_spec _ _).1

/-- **Trimming keeps the value.** -/
theorem value_trim : d.trim.value = d.value := (trimPlaces_spec _ _).2.1

/-- Trimming adds no places. -/
theorem places_trim_le : d.trim.places ≤ d.places := (trimPlaces_spec _ _).2.2.1

/-- Trimming divides the coefficient, so it does not grow. -/
theorem coefficient_trim_le : d.trim.coefficient ≤ d.coefficient := (trimPlaces_spec _ _).2.2.2

variable {d} in
/-- Trimming leaves nothing of a zero but its first digit. -/
theorem trim_of_value_eq_zero (h : d.value = 0) : d.trim = ⟨0, 0⟩ := by
  rw [← d.value_trim, value_eq_zero_iff] at h
  have hplaces : d.trim.places = 0 := d.isTrimmed_trim.resolve_right (by rw [h]; decide)
  calc d.trim
    _ = ⟨d.trim.coefficient, d.trim.places⟩ := rfl
    _ = ⟨0, 0⟩ := by rw [h, hplaces]

end Decimal

/-! ## The exponent of the first digit -/

/-- Powers of ten grow with their exponents. -/
theorem ten_zpow_le {d e : Int} (h : d ≤ e) : (10 : Rat) ^ d ≤ 10 ^ e :=
  zpow_le_zpow_right₀ (by norm_num) h

/-- Between two powers of ten their exponents are told apart. -/
theorem exponent_lt {d e : Int} (hge : (10 : Rat) ^ d ≤ q) (hlt : q < 10 ^ e) : d < e := by
  have hten : (1 : Rat) < 10 := by norm_num
  exact (zpow_lt_zpow_iff_right₀ hten).1 (lt_of_le_of_lt hge hlt)

/-- As many digits as a positive number has, so many powers of ten lie below it. -/
theorem toDigits_bounds {n : Nat} (hn : 0 < n) :
    (10 : Rat) ^ ((Nat.toDigits 10 n).length - 1 : Int) ≤ n ∧
      (n : Rat) < 10 ^ ((Nat.toDigits 10 n).length : Int) := by
  have hlength : 0 < (Nat.toDigits 10 n).length := Nat.length_toDigits_pos
  obtain ⟨k, hk⟩ := Nat.exists_eq_add_of_lt hlength
  have hlt : n < 10 ^ (0 + k + 1) := (Nat.length_toDigits_le_iff (by decide) (by omega)).1 hk.le
  have hge : 10 ^ k ≤ n := by
    rcases Nat.eq_zero_or_pos k with rfl | hpos
    · exact hn
    · refine Nat.le_of_not_lt fun hlt => ?_
      have := (Nat.length_toDigits_le_iff (by decide) hpos).2 hlt
      omega
  have hexponent : ((0 + k + 1 : Nat) : Int) - 1 = k := by omega
  rw [hk, hexponent, zpow_natCast, zpow_natCast]
  exact ⟨by exact_mod_cast hge, by exact_mod_cast hlt⟩

/-- **The decimal exponent** of a positive number is that of its first digit. -/
theorem decimalExponent_spec (hq : 0 < q) :
    (10 : Rat) ^ decimalExponent q ≤ q ∧ q < 10 ^ (decimalExponent q + 1) := by
  have hquotient : q = q.num.natAbs / q.den := (abs_of_pos hq).symm.trans (abs_eq_natAbs_div q)
  have hden : (0 : Rat) < q.den := by exact_mod_cast q.den_pos
  obtain ⟨hnumge, hnumlt⟩ := toDigits_bounds (Int.natAbs_pos.2 (Rat.num_pos.2 hq).ne')
  obtain ⟨hdenge, hdenlt⟩ := toDigits_bounds q.den_pos
  rw [decimalExponent]
  generalize (Nat.toDigits 10 q.num.natAbs).length = a at *
  generalize (Nat.toDigits 10 q.den).length = b at *
  have hten : (10 : Rat) ≠ 0 := by norm_num
  -- the lengths leave two candidates
  have hlow : (10 : Rat) ^ ((a : Int) - b - 1) ≤ q := by
    rw [hquotient, le_div_iff₀ hden]
    calc (10 : Rat) ^ ((a : Int) - b - 1) * q.den
      _ ≤ 10 ^ ((a : Int) - b - 1) * 10 ^ (b : Int) := by gcongr
      _ = 10 ^ ((a : Int) - 1) := by rw [← zpow_add₀ hten]; congr 1; ring
      _ ≤ q.num.natAbs := hnumge
  have hhigh : q < (10 : Rat) ^ ((a : Int) - b + 1) := by
    rw [hquotient, div_lt_iff₀ hden]
    calc (q.num.natAbs : Rat)
      _ < 10 ^ (a : Int) := hnumlt
      _ = 10 ^ ((a : Int) - b + 1) * 10 ^ ((b : Int) - 1) := by rw [← zpow_add₀ hten]; congr 1; ring
      _ ≤ 10 ^ ((a : Int) - b + 1) * q.den := by gcongr
  by_cases h : (10 : Rat) ^ ((a : Int) - b) ≤ q
  · rw [if_pos h]
    exact ⟨h, hhigh⟩
  · rw [if_neg h, sub_add_cancel]
    exact ⟨hlow, not_le.1 h⟩

/-- The bounds determine the exponent of the first digit. -/
theorem decimalExponent_eq {e : Int} (hge : (10 : Rat) ^ e ≤ q) (hlt : q < 10 ^ (e + 1)) :
    decimalExponent q = e := by
  have hq : 0 < q := lt_of_lt_of_le (by positivity) hge
  obtain ⟨hge', hlt'⟩ := decimalExponent_spec hq
  have h := exponent_lt hge hlt'
  have h' := exponent_lt hge' hlt
  omega

/-- **Scientific notation** has one digit before the point, which is not zero, and is off by at
most half a unit of its last place. A carry only leaves a one and moves the exponent. -/
theorem scientific_spec (p : Nat) (hq : 0 < q) :
    ∃ c e, scientific p q = (⟨c, p⟩, e) ∧ 10 ^ p ≤ c ∧ c < 10 ^ (p + 1) ∧
      (e = decimalExponent q ∨ e = decimalExponent q + 1 ∧ c = 10 ^ p) ∧
      |(⟨c, p⟩ : Decimal).value * 10 ^ e - q| ≤ 1 / 2 / 10 ^ p * 10 ^ decimalExponent q := by
  obtain ⟨hge, hlt⟩ := decimalExponent_spec hq
  rw [scientific, if_neg hq.ne']
  generalize decimalExponent q = e at hge hlt ⊢
  have hscale : (0 : Rat) < 10 ^ e := by positivity
  -- between one and ten, as which rounding keeps it but for a carry
  have hone : 1 ≤ q / 10 ^ e := by rwa [le_div_iff₀ hscale, one_mul]
  have hten : q / 10 ^ e < 10 := by
    rw [zpow_add_one₀ (by norm_num), mul_comm] at hlt
    rwa [div_lt_iff₀ hscale]
  obtain ⟨c, hround⟩ : ∃ c, Decimal.round p (q / 10 ^ e) = ⟨c, p⟩ := ⟨_, rfl⟩
  have hcoefficient : c = roundHalfEven (q / 10 ^ e * 10 ^ p) :=
    (congrArg Decimal.coefficient hround).symm
  have hpow : (0 : Rat) < 10 ^ p := by positivity
  have hcge : 10 ^ p ≤ c := by
    rw [hcoefficient]
    refine le_roundHalfEven ?_
    push_cast
    exact le_mul_of_one_le_left hpow.le hone
  have hcle : c ≤ 10 ^ (p + 1) := by
    rw [hcoefficient]
    refine roundHalfEven_le (by positivity) ?_
    rw [pow_succ']
    push_cast
    exact mul_le_mul_of_nonneg_right hten.le hpow.le
  have herror : |(⟨c, p⟩ : Decimal).value * 10 ^ e - q| ≤ 1 / 2 / 10 ^ p * 10 ^ e := by
    have hunits (v : Rat) : v * 10 ^ e - q = (v - q / 10 ^ e) * 10 ^ e := by
      rw [sub_mul, div_mul_cancel₀ _ hscale.ne']
    rw [hunits, abs_mul, abs_of_pos hscale, ← hround]
    exact mul_le_mul_of_nonneg_right
      (Decimal.abs_value_round_sub_le p (zero_le_one.trans hone)) hscale.le
  -- the carry is seen from the value that was rounded
  have hcarry : (10 : Rat) ≤ (⟨c, p⟩ : Decimal).value ↔ 10 ^ (p + 1) ≤ c := by
    rw [Decimal.value, zpow_natCast, le_div_iff₀ hpow, ← pow_succ']
    exact_mod_cast Iff.rfl
  simp only [hround, hcarry]
  by_cases h : 10 ^ (p + 1) ≤ c
  · -- a carry gives a power of ten, which loses nothing by moving the exponent
    obtain rfl : c = 10 ^ (p + 1) := le_antisymm hcle h
    have hvalue : (⟨10 ^ p, p⟩ : Decimal).value * 10 ^ (e + 1) =
        (⟨10 ^ (p + 1), p⟩ : Decimal).value * 10 ^ e := by
      rw [Decimal.value, Decimal.value, zpow_add_one₀ (by norm_num), zpow_natCast, pow_succ]
      push_cast
      ring
    refine ⟨10 ^ p, e + 1, ?_, le_rfl, Nat.pow_lt_pow_right (by decide) (Nat.lt_succ_self p),
      .inr ⟨rfl, rfl⟩, hvalue ▸ herror⟩
    rw [if_pos h, pow_succ, Nat.mul_div_cancel _ (by decide)]
  · exact ⟨c, e, if_neg h, hcge, not_le.1 h, .inl rfl, herror⟩

end Keypad
