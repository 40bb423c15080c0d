import Keypad.Proofs.Display.Places

/-! # Parts that are shown as zero

A part that is not zero and not below the threshold for nothing is shown with a magnitude, as long
as its places can be counted. Rounding up to the end of the fixed range is noticed, and the magnitude is written in scientific notation
instead; rounding down to zero is not. So a magnitude of at most half a unit of the last place kept
**vanishes** in fixed notation: it is written as a zero, with its sign or its imaginary unit. -/

namespace Keypad.Display

open Keypad.Double

variable {o : Options} {log10 : Float → Float} {x : Float} {q r : Rat} {m : Magnitude}

/-! ## Magnitudes without digits -/

/-- A magnitude **vanishes** if it is in the range for fixed notation, its places can be counted,
and it is at most half a unit of the last one. -/
def Vanishes (o : Options) (log10 : Float → Float) (x : Float) (q : Rat) : Prop :=
  o.fixedMin ≤ x ∧ x < o.fixedMax ∧ ∃ n, places o (log10 x) = .ok n ∧ q * 10 ^ n ≤ 1 / 2

/-- A positive magnitude in scientific notation keeps its first digit. -/
theorem exists_scientific_eq (o : Options) (hq : 0 < q) :
    ∃ (d : Decimal) (e : Int), scientific o q = .scientific d e ∧ d.value ≠ 0 := by
  obtain ⟨c, e, hscientific, hc, -⟩ := scientific_spec (o.maxSignificant - 1) hq
  have hpos : 0 < 10 ^ (o.maxSignificant - 1) := by positivity
  refine ⟨_, e, by rw [scientific, hscientific], ?_⟩
  rw [Decimal.value_trim, Ne, Decimal.value_eq_zero_iff]
  exact (lt_of_lt_of_le hpos hc).ne'

/-- Rounding down to zero does not reach the end of the range. -/
theorem not_fixedMax_le_nearest_zero (hx : toRat? x = some q) (hq : 0 < q) (hmax : x < o.fixedMax) :
    ¬ o.fixedMax ≤ nearest 0 := by
  intro hle
  have hzero : toRat? (nearest 0) = some 0 := rfl
  obtain ⟨p, hp⟩ := exists_toRat?_of_le_of_le hx hzero (Double.le_of_lt hmax) hle
  have hqp := (lt_iff hx hp).1 hmax
  have hp0 := (le_iff hp hzero).1 hle
  linarith

/-- **What becomes of a positive magnitude** with a number of places: it is written as zero if it is
at most half a unit of the last one, and otherwise as a number that is not zero. -/
theorem rounded_cases (o : Options) (hx : toRat? x = some q) (hq : 0 < q) (hmax : x < o.fixedMax)
    (n : Nat) :
    q * 10 ^ n ≤ 1 / 2 ∧ rounded o q n = .fixed ⟨0, 0⟩ ∨
    ¬ q * 10 ^ n ≤ 1 / 2 ∧ ((∃ d : Decimal, rounded o q n = .fixed d.trim ∧ d.value ≠ 0) ∨
      ∃ (d : Decimal) (e : Int), rounded o q n = .scientific d e ∧ d.value ≠ 0) := by
  rw [← Decimal.value_round_eq_zero_iff n hq.le, rounded, fixed?]
  generalize Decimal.round n q = d
  by_cases hzero : d.value = 0
  · -- nothing but the end of the range is tested, and zero is not there
    left
    rw [hzero, if_neg (not_fixedMax_le_nearest_zero hx hq hmax), Decimal.trim_of_value_eq_zero hzero]
    exact ⟨rfl, rfl⟩
  · refine .inr ⟨hzero, ?_⟩
    -- rounded up to the end of the range, the magnitude leaves fixed notation
    by_cases hend : o.fixedMax ≤ nearest d.value
    · rw [if_pos hend]
      exact .inr (exists_scientific_eq o hq)
    · rw [if_neg hend]
      exact .inl ⟨d, rfl, hzero⟩

/-- **What a positive magnitude is shown as**: it vanishes, or it is written in fixed or in
scientific notation as a number that is not zero. -/
theorem magnitude_cases (hx : toRat? x = some q) (hq : 0 < q) (h : magnitude o log10 x q = .ok m) :
    Vanishes o log10 x q ∧ m = .fixed ⟨0, 0⟩ ∨
    ¬ Vanishes o log10 x q ∧ ((∃ d : Decimal, m = .fixed d.trim ∧ d.value ≠ 0) ∨
      ∃ (d : Decimal) (e : Int), m = .scientific d e ∧ d.value ≠ 0) := by
  obtain ⟨hrange, n, hcount, rfl⟩ | ⟨hrange, rfl⟩ := magnitude_eq_ok_iff.1 h
  · have hvanishes : Vanishes o log10 x q ↔ q * 10 ^ n ≤ 1 / 2 := by
      simp [Vanishes, hrange, hcount]
    rw [hvanishes]
    exact rounded_cases o hx hq hrange.2 n
  · -- no magnitude vanishes in scientific notation, whose first digit is not zero
    exact .inr ⟨fun hvanishes => hrange ⟨hvanishes.1, hvanishes.2.1⟩,
      .inr (exists_scientific_eq o hq)⟩

/-- A magnitude that vanishes is written as a zero. -/
theorem magnitude_of_vanishes (hx : toRat? x = some q) (hq : 0 < q) (h : Vanishes o log10 x q) :
    magnitude o log10 x q = .ok (.fixed ⟨0, 0⟩) := by
  obtain ⟨hmin, hmax, n, hn, hsmall⟩ := h
  obtain ⟨-, hzero⟩ | ⟨hlarge, -⟩ := rounded_cases o hx hq hmax n
  · exact magnitude_eq_ok_iff.2 (.inl ⟨⟨hmin, hmax⟩, n, hn, hzero⟩)
  · exact absurd hsmall hlarge

/-- **Too few places**: whatever its logarithm, a magnitude in the fixed range whose places can be
counted vanishes if it is at most half a unit of the last place that the fraction may have. -/
theorem vanishes_of_le (hmin : o.fixedMin ≤ x) (hmax : x < o.fixedMax)
    (hcount : ∃ n, places o (log10 x) = .ok n) (hq : 0 ≤ q)
    (hsmall : q * 10 ^ o.maxFraction ≤ 1 / 2) : Vanishes o log10 x q := by
  obtain ⟨n, hn⟩ := hcount
  have hten : (1 : Rat) ≤ 10 := by norm_num
  have hpow : (10 : Rat) ^ n ≤ 10 ^ o.maxFraction := pow_le_pow_right₀ hten (places_le hn)
  exact ⟨hmin, hmax, n, hn, (mul_le_mul_of_nonneg_left hpow hq).trans hsmall⟩

/-- No number in scientific notation is written as a zero. -/
theorem text_scientific_ne_zero (d : Decimal) (e : Int) :
    (Magnitude.scientific d e).text ≠ "0" := by
  intro h
  have hmem : 'E' ∈ (Magnitude.scientific d e).text.toList := by
    simp [Magnitude.text]
  rw [h] at hmem
  revert hmem
  decide

/-- In fixed notation only zero is written as a zero. -/
theorem text_trim_ne_zero {d : Decimal} (hd : d.value ≠ 0) : d.trim.text ≠ "0" := by
  intro h
  have hcanonical := d.isTrimmed_trim.isCanonicalNumeral
  rw [h] at hcanonical
  exact hd (d.value_trim ▸ hcanonical.value_eq_zero)

/-- A coefficient that is written at all is written as the magnitude. -/
theorem coefficient_eq_zero_iff (m : Magnitude) : m.coefficient = "0" ↔ m.text = "0" := by
  rw [Magnitude.coefficient]
  by_cases hone : m = .fixed ⟨1, 0⟩
  · rw [if_pos hone, hone]
    decide
  · rw [if_neg hone]

/-- **When a part is shown as zero.** A part that is not zero and not below the threshold for
nothing is shown with its sign and a magnitude, unless it is in the range for fixed notation and the
count of its places overflows. That magnitude stands for zero, and is written as one before the
imaginary unit as well, exactly if it vanishes. -/
theorem classify_vanishes (o : Options) (log10 : Float → Float) (hx : toRat? x = some r)
    (hr : r ≠ 0) (hepsilon : ¬ x.abs < o.epsilon) :
    (∃ e, InFixedRange o x r ∧ places o (log10 x.abs) = .error e ∧
      classify o log10 x = .error e) ∨
    ∃ m v, classify o log10 x = .ok (.shown (decide (r < 0)) m) ∧ m.value? = some v ∧
      (v = 0 ↔ Vanishes o log10 x.abs |r|) ∧
      (m.text = "0" ↔ Vanishes o log10 x.abs |r|) ∧
      (m.coefficient = "0" ↔ Vanishes o log10 x.abs |r|) := by
  have hclass := classify_of_toRat? o log10 hx
  rw [if_neg hepsilon] at hclass
  simp only [coefficient_eq_zero_iff]
  cases hmagnitude : magnitude o log10 x.abs |r| with
  | error e =>
    obtain ⟨⟨hmin, hmax⟩, hcount⟩ := magnitude_eq_error_iff.1 hmagnitude
    rw [hmagnitude] at hclass
    exact .inl ⟨e, ⟨hx, hepsilon, hmin, hmax⟩, hcount, hclass⟩
  | ok m =>
    rw [hmagnitude] at hclass
    right
    -- rounded to zero, shown in fixed notation or shown in scientific notation
    obtain ⟨hvanishes, rfl⟩ | ⟨hvanishes, ⟨d, rfl, hd⟩ | ⟨d, e, rfl, hd⟩⟩ :=
      magnitude_cases (toRat?_abs hx) (abs_pos.2 hr) hmagnitude
    · have hzero : (Magnitude.fixed ⟨0, 0⟩).text = "0" := by decide
      exact ⟨_, _, hclass, rfl, iff_of_true (Decimal.value_whole 0) hvanishes,
        iff_of_true hzero hvanishes, iff_of_true hzero hvanishes⟩
    · have hvalue : d.trim.value ≠ 0 := d.value_trim ▸ hd
      have htext : (Magnitude.fixed d.trim).text ≠ "0" := text_trim_ne_zero hd
      exact ⟨_, _, hclass, rfl, iff_of_false hvalue hvanishes, iff_of_false htext hvanishes,
        iff_of_false htext hvanishes⟩
    · have hvalue : d.value * 10 ^ e ≠ 0 := mul_ne_zero hd (by positivity)
      have htext := text_scientific_ne_zero d e
      exact ⟨_, _, hclass, rfl, iff_of_false hvalue hvanishes, iff_of_false htext hvanishes,
        iff_of_false htext hvanishes⟩

/-- With three digits and two places a part of about an eighth keeps digits. -/
theorem classify_vanishes_eighth :
    ∃ m v, classify { maxSignificant := 3, maxFraction := 2 } (fun _ => -0.9084877983722284)
      0.123456 = .ok (.shown false m) ∧ m.value? = some v ∧ v ≠ 0 ∧ m.text ≠ "0" := by
  have hx : toRat? 0.123456 = some (8895942329546431 / 2 ^ 56) := by decide +kernel
  have hplaces : places { maxSignificant := 3, maxFraction := 2 } (-0.9084877983722284) = .ok 2 := by
    decide +kernel
  have hkept : ¬ Vanishes { maxSignificant := 3, maxFraction := 2 } (fun _ => -0.9084877983722284)
      (0.123456 : Float).abs |8895942329546431 / 2 ^ 56| := by
    rintro ⟨-, -, n, hn, hsmall⟩
    obtain rfl := Except.ok.inj (hplaces.symm.trans hn)
    norm_num [abs_div] at hsmall
  obtain ⟨e, -, herror, -⟩ | ⟨m, v, hclass, hvalue, hzero, htext, -⟩ :=
    classify_vanishes { maxSignificant := 3, maxFraction := 2 } (fun _ => -0.9084877983722284) hx
      (by norm_num) (by decide +kernel)
  · cases hplaces.symm.trans herror
  · rw [decide_eq_false (by norm_num)] at hclass
    exact ⟨m, v, hclass, hvalue, mt hzero.1 hkept, mt htext.1 hkept⟩

/-- With the same thresholds a thousandth, which is far above the threshold for nothing, is **shown
as zero**: the real part as `-0` and the imaginary one as `0i`. -/
theorem textWith_thousandth :
    (∃ r, toRat? (-0.001) = some r ∧ r < 0) ∧ (∃ r, toRat? 0.001 = some r ∧ 0 < r) ∧
    ¬ (-0.001 : Float).abs < ({ maxSignificant := 3, maxFraction := 2 } : Options).epsilon ∧
    ¬ (0.001 : Float).abs < ({ maxSignificant := 3, maxFraction := 2 } : Options).epsilon ∧
    Value.textWith { maxSignificant := 3, maxFraction := 2 } ⟨-0.001, 0.001⟩ = .ok "-0+0i" := by
  have hre : toRat? (-0.001) = some (-(1152921504606847 / 2 ^ 60)) := by decide +kernel
  have him : toRat? 0.001 = some (1152921504606847 / 2 ^ 60) := by decide +kernel
  have hreband : ¬ (-0.001 : Float).abs < ({} : Options).epsilon := by decide +kernel
  have himband : ¬ (0.001 : Float).abs < ({} : Options).epsilon := by decide +kernel
  refine ⟨⟨_, hre, by norm_num⟩, ⟨_, him, by norm_num⟩, hreband, himband, ?_⟩
  -- both parts have this magnitude, and two places are too few for it
  have hzero {x : Float} (hx : toRat? x = some (1152921504606847 / 2 ^ 60))
      (hmin : ({} : Options).fixedMin ≤ x) (hmax : x < ({} : Options).fixedMax) :
      magnitude { maxSignificant := 3, maxFraction := 2 } Double.log10 x
        (1152921504606847 / 2 ^ 60) = .ok (.fixed ⟨0, 0⟩) := by
    have hcount : ∃ n, places { maxSignificant := 3, maxFraction := 2 } (Double.log10 x) = .ok n :=
      (isLogarithmOf_log10 hx (by norm_num)).exists_places_of_few (by norm_num) (by norm_num)
    exact magnitude_of_vanishes hx (by norm_num)
      (vanishes_of_le hmin hmax hcount (by norm_num) (by norm_num))
  have hreabs := toRat?_abs hre
  have himabs := toRat?_abs him
  rw [abs_neg, abs_of_pos (by norm_num)] at hreabs
  rw [abs_of_pos (by norm_num)] at himabs
  rw [Value.textWith, textWith, classify_of_toRat? _ _ hre, if_neg hreband,
    classify_of_toRat? _ _ him, if_neg himband, abs_neg, abs_of_pos (by norm_num),
    hzero hreabs (by decide +kernel) (by decide +kernel),
    hzero himabs (by decide +kernel) (by decide +kernel), decide_eq_true (by norm_num),
    decide_eq_false (by norm_num)]
  decide

end Keypad.Display
