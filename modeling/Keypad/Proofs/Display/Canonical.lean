import Keypad.Proofs.Decimal.Canonical
import Keypad.Proofs.Display.Shown
import Keypad.Proofs.Double.Rounding

/-! # What a displayed part looks like

With the default thresholds a part of a value is shown as nothing, as a canonical numeral in fixed
notation, or as one in scientific notation, and the number shown is off by at most half a unit of
the last place that was kept. Rounding may carry into a further digit; then either the zeros behind
it are trimmed, or the part leaves the range of fixed notation. -/

namespace Keypad.Display

open Keypad.Double

variable {x : Float} {q : Rat} {e : Int}

/-! ## The default thresholds -/

/-- The end of the range for fixed notation is exactly a power of ten. -/
theorem toRat?_fixedMax : toRat? ({} : Options).fixedMax = some (10 ^ 10) := by decide +kernel

/-- The last whole number before the end of the range is a double. -/
theorem toRat?_ten_digits : toRat? 9999999999 = some 9999999999 := by decide +kernel

/-- The least magnitude in fixed notation is a double just above the power of ten. -/
theorem exists_toRat?_fixedMin :
    ∃ p, toRat? ({} : Options).fixedMin = some p ∧ (10 : Rat) ^ (-5 : Int) ≤ p :=
  exists_toRat?_of_any (by decide +kernel)

/-- The threshold for nothing is a positive number, so there is something below it: zero. -/
theorem exists_toRat?_epsilon : ∃ p, toRat? ({} : Options).epsilon = some p ∧ 0 < p :=
  exists_toRat?_of_any (by decide +kernel)

/-! ## The places kept -/

/-- The number of **places kept** in fixed notation for a magnitude whose first digit has the given
exponent: ten digits in all, counted from the units if that is zero, and at most ten places. -/
def keptPlaces (e : Int) : Nat := (min (10 - (e + 1)) 10).toNat

/-- A decimal logarithm is **true** at a double if its floor is the exponent of the first digit. -/
def IsTrueAt (log10 : Float → Float) (x : Float) : Prop :=
  ∀ (q : Rat) (e : Int), toRat? x = some q → 10 ^ e ≤ q → q < 10 ^ (e + 1) →
    (floor64 (log10 x)).toInt = e

/-- In the default range the places counted from a true logarithm are **the places kept**, without
an overflow. -/
theorem places_eq_keptPlaces {l : Float} (h : (floor64 l).toInt = e) (hge : -5 ≤ e) (hle : e ≤ 9) :
    places {} l = .ok (keptPlaces e) := by
  rw [places, digitsBefore, h]
  interval_cases e <;> rfl

/-- The coefficient of a magnitude that is rounded to the places kept has ten digits, or it is the
next power of ten. -/
theorem coefficient_round_le (hge : (10 : Rat) ^ e ≤ q) (hlt : q < 10 ^ (e + 1)) (he : e ≤ 9) :
    (Decimal.round (keptPlaces e) q).coefficient ≤ 10 ^ 10 := by
  have hq : 0 ≤ q := le_trans (by positivity) hge
  refine roundHalfEven_le (by positivity) ?_
  push_cast
  calc q * 10 ^ (keptPlaces e : Int)
    _ ≤ 10 ^ (e + 1) * 10 ^ (keptPlaces e : Int) := by gcongr
    _ = 10 ^ (e + 1 + keptPlaces e) := (zpow_add₀ (by norm_num) ..).symm
    _ ≤ 10 ^ (10 : Int) := by
      refine ten_zpow_le ?_
      rw [keptPlaces]
      omega

/-- The places kept are enough for the first digit of a magnitude in the fixed range. -/
theorem coefficient_round_pos (hge : (10 : Rat) ^ e ≤ q) (he : -5 ≤ e) :
    0 < (Decimal.round (keptPlaces e) q).coefficient := by
  have hone : 1 ≤ (Decimal.round (keptPlaces e) q).coefficient := by
    refine le_roundHalfEven ?_
    calc ((1 : Nat) : Rat)
      _ = 10 ^ (0 : Int) := by norm_num
      _ ≤ 10 ^ (e + keptPlaces e) := by
        refine ten_zpow_le ?_
        rw [keptPlaces]
        omega
      _ = 10 ^ e * 10 ^ (keptPlaces e : Int) := zpow_add₀ (by norm_num) ..
      _ ≤ q * 10 ^ (keptPlaces e : Int) := by gcongr
  exact hone

/-! ## The shapes of magnitudes -/

/-- A text is a numeral **in fixed notation** for a number, rounded to so many places: canonical,
with at most ten digits from the first that is not a zero, and ten after the point. -/
structure IsFixedNumeral (q : Rat) (places : Nat) (text : String) (whole fraction : List Char)
    (value : Rat) : Prop extends IsCanonicalNumeral text whole fraction value where
  significant : ((whole ++ fraction).dropWhile (· == '0')).length ≤ 10
  length_fraction : fraction.length ≤ 10
  ne_zero : value ≠ 0
  error_le : |value - q| ≤ 1 / 2 / 10 ^ places

/-- A text is a numeral **in scientific notation** for a number whose first digit has the given
exponent: a canonical mantissa of at most ten digits, one of them before the point and not a zero,
and a power of ten. -/
structure IsScientificNumeral (q : Rat) (e : Int) (text mantissa : String)
    (whole fraction : List Char) (value : Rat) (exponent : Int) : Prop
    extends IsCanonicalNumeral mantissa whole fraction value where
  text_eq_append : text = mantissa ++ "E" ++ exponent.repr
  first : ∃ c, whole = [c] ∧ c ≠ '0'
  length_digits : (whole ++ fraction).length ≤ 10
  ne_zero : value * 10 ^ exponent ≠ 0
  error_le : |value * 10 ^ exponent - q| ≤ 1 / 2 / 10 ^ 9 * 10 ^ e

/-- No more than ten places are kept. -/
theorem keptPlaces_le (e : Int) : keptPlaces e ≤ 10 := by
  rw [keptPlaces]
  omega

/-- **Fixed notation** of a magnitude that is not rounded up to the end of the range. -/
theorem isFixedNumeral_round (hge : (10 : Rat) ^ e ≤ q) (hlt : q < 10 ^ (e + 1)) (hleast : -5 ≤ e)
    (hmax : (Decimal.round (keptPlaces e) q).value < 10 ^ 10) :
    ∃ whole fraction value, IsFixedNumeral q (keptPlaces e)
      (Decimal.round (keptPlaces e) q).trim.text whole fraction value := by
  have hq : 0 ≤ q := le_trans (by positivity) hge
  -- a number of eleven digits would be rounded to the end of the range or beyond
  have he : e ≤ 9 := by
    by_contra he
    have hlarge : ((10 ^ 10 : Nat) : Rat) ≤ q := by
      push_cast
      exact le_trans (ten_zpow_le (by omega : (10 : Int) ≤ e)) hge
    have := Decimal.le_value_round (keptPlaces e) hlarge
    push_cast at this
    exact absurd hmax (not_lt.2 this)
  have hcoefficient := coefficient_round_le hge hlt he
  have hpos := coefficient_round_pos hge hleast
  have herror := Decimal.abs_value_round_sub_le (keptPlaces e) hq
  have hplaces : (Decimal.round (keptPlaces e) q).places ≤ 10 := keptPlaces_le e
  generalize Decimal.round (keptPlaces e) q = d at *
  refine ⟨d.trim.wholeDigits, d.trim.fractionDigits, d.trim.value,
    d.isTrimmed_trim.isCanonicalNumeral, ?_, ?_, ?_, ?_⟩
  · rw [Decimal.wholeDigits_append_fractionDigits]
    refine Decimal.length_dropWhile_digits_le (by decide) ?_
    refine lt_of_le_of_ne (d.coefficient_trim_le.trans hcoefficient) fun hcarry => ?_
    -- a carry into an eleventh digit leaves zeros only, and then the value is too large
    have hwhole : d.trim.places = 0 := d.isTrimmed_trim.resolve_right (by rw [hcarry]; decide)
    have hvalue : d.value = 10 ^ 10 := by
      rw [← d.value_trim, Decimal.value, hcarry, hwhole]
      norm_num
    exact hmax.ne hvalue
  · rw [Decimal.length_fractionDigits]
    exact d.places_trim_le.trans hplaces
  · rw [d.value_trim, Decimal.value]
    positivity
  · rw [d.value_trim]
    exact herror

/-- **Scientific notation** of a positive magnitude. -/
theorem isScientificNumeral_scientific (hge : (10 : Rat) ^ e ≤ q) (hlt : q < 10 ^ (e + 1)) :
    ∃ mantissa whole fraction value exponent,
      IsScientificNumeral q e (scientific {} q).text mantissa whole fraction value exponent := by
  have hq : 0 < q := lt_of_lt_of_le (by positivity) hge
  obtain ⟨c, k, hscientific, hcge, hclt, -, herror⟩ := scientific_spec 9 hq
  rw [decimalExponent_eq hge hlt] at herror
  have htext : (scientific {} q).text = (⟨c, 9⟩ : Decimal).trim.text ++ "E" ++ k.repr := by
    change Keypad.scientific (({} : Options).maxSignificant - 1) q = _ at hscientific
    rw [scientific, hscientific]
    rfl
  have hvalue : (⟨c, 9⟩ : Decimal).value = c / 10 ^ 9 := by rw [Decimal.value, zpow_natCast]
  have hone : 1 ≤ (⟨c, 9⟩ : Decimal).value := by
    rw [hvalue, one_le_div₀ (by positivity)]
    exact_mod_cast hcge
  have hten : (⟨c, 9⟩ : Decimal).value < 10 := by
    rw [hvalue, div_lt_iff₀ (by positivity), ← pow_succ']
    exact_mod_cast hclt
  have hplaces : (⟨c, 9⟩ : Decimal).trim.places ≤ 9 := Decimal.places_trim_le _
  generalize (⟨c, 9⟩ : Decimal) = d at *
  rw [← d.value_trim] at hone hten
  -- a value between one and ten has one digit before the point, and that is not zero
  obtain ⟨first, hfirst, hne⟩ := Decimal.exists_wholeDigits_eq hone hten
  refine ⟨d.trim.text, d.trim.wholeDigits, d.trim.fractionDigits, d.trim.value, k,
    d.isTrimmed_trim.isCanonicalNumeral, htext, ⟨first, hfirst, hne⟩, ?_, ?_, ?_⟩
  · rw [List.length_append, hfirst, Decimal.length_fractionDigits, List.length_singleton]
    omega
  · positivity
  · rw [d.value_trim]
    exact herror

/-! ## Classifying a finite part -/

/-- What is not rounded up to the end of the fixed range is rounded at least one below it. -/
theorem value_round_le_of_lt (hge : (10 : Rat) ^ e ≤ q) (hlt : q < 10 ^ (e + 1)) (he : e ≤ 9)
    (hmax : (Decimal.round (keptPlaces e) q).value < 10 ^ 10) :
    (Decimal.round (keptPlaces e) q).value ≤ 9999999999 := by
  rcases he.lt_or_eq with he | rfl
  · have hq : q ≤ (10 ^ 9 : Nat) := by
      push_cast
      exact hlt.le.trans (ten_zpow_le (by omega : e + 1 ≤ 9))
    refine (Decimal.value_round_le _ (le_trans (by positivity) hge) hq).trans ?_
    norm_num
  · -- no places are kept, so the value is a whole number
    have hwhole : (Decimal.round (keptPlaces 9) q).value =
        (Decimal.round (keptPlaces 9) q).coefficient := Decimal.value_whole _
    rw [hwhole] at hmax ⊢
    have hlt : (Decimal.round (keptPlaces 9) q).coefficient < 10 ^ 10 := by exact_mod_cast hmax
    exact_mod_cast Nat.le_of_lt_succ hlt

/-- **The end of the fixed range** is reached by the text, read as a double again, exactly if it is
reached by the number that is written. -/
theorem fixedMax_le_nearest_iff (hge : (10 : Rat) ^ e ≤ q) (hlt : q < 10 ^ (e + 1)) (he : e ≤ 9) :
    ({} : Options).fixedMax ≤ nearest (Decimal.round (keptPlaces e) q).value ↔
      10 ^ 10 ≤ (Decimal.round (keptPlaces e) q).value := by
  have hnonneg : 0 ≤ (Decimal.round (keptPlaces e) q).value := by
    rw [Decimal.value]
    positivity
  have hsmall : |(Decimal.round (keptPlaces e) q).value| < 2 ^ 1023 := by
    have hq : q ≤ (10 ^ 10 : Nat) := by
      push_cast
      exact hlt.le.trans (ten_zpow_le (by omega : e + 1 ≤ 10))
    have hvalue := Decimal.value_round_le (keptPlaces e) (le_trans (by positivity) hge) hq
    rw [abs_of_nonneg hnonneg]
    calc (Decimal.round (keptPlaces e) q).value
      _ ≤ (10 ^ 10 : Nat) := hvalue
      _ < 2 ^ 34 := by norm_num
      _ ≤ 2 ^ 1023 := pow_le_pow_right₀ one_le_two (by norm_num)
  -- the value is compared as the nearest double, which keeps to both sides of a double
  obtain ⟨v, hv, hbounds⟩ := exists_toRat?_nearest_bounds hsmall
  rw [le_iff toRat?_fixedMax hv]
  constructor
  · intro h
    by_contra hmax
    have hbelow := value_round_le_of_lt hge hlt he (not_le.1 hmax)
    have hcontra := h.trans ((hbounds _ _ toRat?_ten_digits).1 hbelow)
    norm_num at hcontra
  · intro h
    exact (hbounds _ _ toRat?_fixedMax).2 h

/-- A finite magnitude is in **fixed notation** exactly if it is large enough and is not rounded up
to the end of the range. -/
theorem magnitude_default (log10 : Float → Float) (hx : toRat? x = some q)
    (hlog : IsTrueAt log10 x) (hge : (10 : Rat) ^ e ≤ q) (hlt : q < 10 ^ (e + 1)) :
    magnitude {} log10 x q = .ok (
      if ({} : Options).fixedMin ≤ x ∧ (Decimal.round (keptPlaces e) q).value < 10 ^ 10 then
        .fixed (Decimal.round (keptPlaces e) q).trim
      else scientific {} q) := by
  rw [magnitude]
  by_cases hmin : ({} : Options).fixedMin ≤ x
  · by_cases hmax : x < ({} : Options).fixedMax
    · -- in the range the exponent is between -5 and 9, and the places follow from it
      obtain ⟨p, hp, hple⟩ := exists_toRat?_fixedMin
      have hleast := exponent_lt (hple.trans ((le_iff hp hx).1 hmin)) hlt
      have he := exponent_lt (e := 10) hge ((lt_iff hx toRat?_fixedMax).1 hmax)
      have hplaces := places_eq_keptPlaces (hlog q e hx hge hlt) (by omega) (by omega)
      have hend := fixedMax_le_nearest_iff hge hlt (by omega)
      simp only [hmin, hmax, hplaces, Except.map, rounded, fixed?, hend, decide_true, Bool.and_self,
        if_true, true_and]
      by_cases hvalue : (Decimal.round (keptPlaces e) q).value < 10 ^ 10
      · rw [if_neg (not_le.2 hvalue), if_pos hvalue]
      · rw [if_pos (not_lt.1 hvalue), if_neg hvalue]
    · -- beyond the end of the range rounding stays there
      have hlarge : ((10 ^ 10 : Nat) : Rat) ≤ q := by
        rw [lt_iff hx toRat?_fixedMax, not_lt] at hmax
        exact_mod_cast hmax
      have hvalue := Decimal.le_value_round (keptPlaces e) hlarge
      push_cast at hvalue
      rw [if_neg (by simp [hmax]), if_neg fun h => absurd h.2 (not_lt.2 hvalue)]
  · rw [if_neg (by simp [hmin]), if_neg fun h => hmin h.1]

/-- A finite part is shown as **nothing** exactly if it is below the threshold, and otherwise with
its sign and the magnitude of its exact value. -/
theorem classify_of_toRat? (o : Options) (log10 : Float → Float) (hx : toRat? x = some q) :
    classify o log10 x = if x.abs < o.epsilon then .ok .nothing
      else (magnitude o log10 x.abs |q|).map (.shown (decide (q < 0))) := by
  have hsign : decide (x < 0) = decide (q < 0) := by
    have hzero : toRat? 0 = some 0 := rfl
    simp [lt_iff hx hzero]
  rw [classify, isNaN_of_toRat? hx, if_neg Bool.false_ne_true, toRat?_abs hx, hsign]

/-- Nothing but the threshold decides whether a finite part is shown as nothing. -/
theorem classify_eq_nothing_iff (o : Options) (log10 : Float → Float) (hx : toRat? x = some q) :
    classify o log10 x = .ok .nothing ↔ x.abs < o.epsilon := by
  rw [classify_of_toRat? o log10 hx]
  by_cases h : x.abs < o.epsilon
  · rw [if_pos h]
    exact iff_of_true rfl h
  · rw [if_neg h]
    cases magnitude o log10 x.abs |q| <;> simp [Except.map, h]

/-- **Displayed parts are canonical and accurate.** With the default thresholds a finite part is
shown as nothing exactly if its magnitude is below the threshold for that. Otherwise it has a minus
sign exactly if it is negative, and its magnitude is a canonical numeral that is not zero and is off
by at most half a unit of the last place kept: in fixed notation if it is not too small and is not
rounded up to the end of the range, and in scientific notation in every other case. -/
theorem classify_canonical (log10 : Float → Float) {r : Rat} (hx : toRat? x = some r)
    (hlog : IsTrueAt log10 x.abs) :
    (classify {} log10 x = .ok .nothing ↔ x.abs < 1e-15) ∧
    (¬ x.abs < 1e-15 → ∃ m e, classify {} log10 x = .ok (.shown (decide (r < 0)) m) ∧
      (Part.shown (decide (r < 0)) m).text = (if r < 0 then "-" else "") ++ m.text ∧
      (10 : Rat) ^ e ≤ |r| ∧ |r| < 10 ^ (e + 1) ∧
      if 1e-5 ≤ x.abs ∧ (Decimal.round (keptPlaces e) |r|).value < 10 ^ 10 then
        ∃ whole fraction value, IsFixedNumeral |r| (keptPlaces e) m.text whole fraction value
      else
        ∃ mantissa whole fraction value exponent,
          IsScientificNumeral |r| e m.text mantissa whole fraction value exponent) := by
  refine ⟨classify_eq_nothing_iff {} log10 hx, fun h => ?_⟩
  have habs := toRat?_abs hx
  have hpos : 0 < |r| := by
    obtain ⟨p, hp, hlt⟩ := exists_toRat?_epsilon
    exact lt_of_lt_of_le hlt (not_lt.1 fun hr => h ((lt_iff habs hp).2 hr))
  obtain ⟨hge, hlt⟩ := decimalExponent_spec hpos
  -- the places are counted from a true logarithm, so the count does not overflow
  have hclass := classify_of_toRat? {} log10 hx
  rw [if_neg h, magnitude_default log10 habs hlog hge hlt] at hclass
  refine ⟨_, _, hclass, ?_, hge, hlt, ?_⟩
  · by_cases hr : r < 0 <;> simp [Part.text, hr]
  · by_cases hfixed : 1e-5 ≤ x.abs ∧
        (Decimal.round (keptPlaces (decimalExponent |r|)) |r|).value < 10 ^ 10
    · obtain ⟨p, hp, hple⟩ := exists_toRat?_fixedMin
      have hleast := exponent_lt (hple.trans ((le_iff hp habs).1 hfixed.1)) hlt
      rw [if_pos hfixed, if_pos hfixed]
      exact isFixedNumeral_round hge hlt (by omega) hfixed.2
    · rw [if_neg hfixed, if_neg hfixed]
      exact isScientificNumeral_scientific hge hlt

/-- A carry through all the digits: a part just below a hundred is shown as a hundred, with a sign,
within half a unit of the eighth place. -/
theorem classify_canonical_hundred :
    ∃ r m whole fraction value, toRat? (-99.9999999999) = some r ∧
      classify {} (fun _ => 1.9999999999995657) (-99.9999999999) = .ok (.shown true m) ∧
      IsFixedNumeral |r| 8 m.text whole fraction value := by
  have hx : toRat? (-99.9999999999) = some (-7036874417759363 / 2 ^ 46) := by decide +kernel
  have hge : (10 : Rat) ^ (1 : Int) ≤ |-7036874417759363 / 2 ^ 46| := by norm_num [abs_div]
  have hlt : |-7036874417759363 / 2 ^ 46| < (10 : Rat) ^ (1 + 1 : Int) := by norm_num [abs_div]
  -- a logarithm that is right at this one magnitude is enough
  have hlog : IsTrueAt (fun _ => 1.9999999999995657) (-99.9999999999 : Float).abs := by
    intro q e hq hqge hqlt
    obtain rfl := Option.some.inj ((toRat?_abs hx).symm.trans hq)
    rw [← decimalExponent_eq hqge hqlt, decimalExponent_eq hge hlt]
    decide +kernel
  have hnotNothing : ¬ (-99.9999999999 : Float).abs < 1e-15 := by decide +kernel
  obtain ⟨m, e, hclass, -, hege, helt, hshape⟩ := (classify_canonical _ hx hlog).2 hnotNothing
  obtain rfl : e = 1 := (decimalExponent_eq hege helt).symm.trans (decimalExponent_eq hge hlt)
  -- rounding carries to a hundred, far from the end of the range
  have hround : (Decimal.round (keptPlaces 1) |-7036874417759363 / 2 ^ 46|).value < 10 ^ 10 := by
    have hle := Decimal.value_round_le (n := 100) (keptPlaces 1) (abs_nonneg _)
      (hlt.le.trans (by norm_num))
    exact lt_of_le_of_lt hle (by norm_num)
  rw [if_pos ⟨by decide +kernel, hround⟩] at hshape
  obtain ⟨whole, fraction, value, hfixed⟩ := hshape
  rw [decide_eq_true (by norm_num)] at hclass
  exact ⟨_, m, whole, fraction, value, hx, hclass, hfixed⟩

end Keypad.Display
