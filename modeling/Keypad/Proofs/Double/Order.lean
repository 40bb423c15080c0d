import Keypad.Proofs.Double.Products

/-! # The order of doubles

Finite doubles are compared as the exact numbers they stand for. Their exponents are compared
first and their mantissas only if these are equal, which is right because what bits are unpacked to
is canonical: a mantissa that could be shorter has the least exponent. -/

namespace Keypad.Double

open Float.Model UnpackedFloat

/-! ## Canonical numbers -/

variable {m n : Nat} {d e : Int}

/-- A canonical mantissa has at most 53 bits. -/
theorem IsCanonical.mantissa_lt (h : IsCanonical .binary64 m e) : m < 2 ^ 53 := by
  rw [isCanonical_binary64_iff] at h
  by_cases hm : m = 0
  · rw [hm]
    positivity
  · exact (Nat.log2_lt hm).1 (by omega)

/-- A canonical exponent is not below the least one. -/
theorem IsCanonical.le_exponent (h : IsCanonical .binary64 m e) : -1074 ≤ e := by
  rw [isCanonical_binary64_iff] at h
  omega

/-- Above the least exponent the leading bit of the mantissa is set. -/
theorem IsCanonical.le_mantissa (h : IsCanonical .binary64 m e) (hm : 0 < m) (he : -1074 < e) :
    2 ^ 52 ≤ m := by
  rw [isCanonical_binary64_iff] at h
  exact (Nat.le_log2 hm.ne').1 (by omega)

/-- **The exponent decides** between canonical numbers. -/
theorem IsCanonical.mul_zpow_lt (hm : IsCanonical .binary64 m d) (hn : IsCanonical .binary64 n e)
    (hpos : 0 < n) (hlt : d < e) : (m : Rat) * 2 ^ d < n * 2 ^ e := by
  have hmantissa : (m : Rat) < 2 ^ 53 := by exact_mod_cast hm.mantissa_lt
  have hleading : (2 : Rat) ^ 52 ≤ n := by
    exact_mod_cast hn.le_mantissa hpos (lt_of_le_of_lt hm.le_exponent hlt)
  calc (m : Rat) * 2 ^ d
    _ < 2 ^ 53 * 2 ^ d := by gcongr
    _ = 2 ^ 52 * 2 ^ (d + 1) := by rw [zpow_add_one₀ two_ne_zero]; ring
    _ ≤ n * 2 ^ e := by gcongr <;> [norm_num; omega]

/-- Comparing exponents and then mantissas compares canonical numbers. -/
theorem IsCanonical.compare_eq (hm : IsCanonical .binary64 m d) (hn : IsCanonical .binary64 n e)
    (hmpos : 0 < m) (hnpos : 0 < n) :
    (compare d e).then (compare m n) = cmp ((m : Rat) * 2 ^ d) (n * 2 ^ e) := by
  rcases lt_trichotomy d e with hlt | rfl | hlt
  · rw [compare_lt_iff_lt.2 hlt, (cmp_eq_lt_iff _ _).2 (hm.mul_zpow_lt hn hnpos hlt)]
    rfl
  · have hscale : (0 : Rat) < 2 ^ d := by positivity
    rw [cmp_mul_pos_right hscale, Nat.strictMono_cast.cmp_map_eq]
    simp [cmp_eq_compare]
  · rw [compare_gt_iff_gt.2 hlt, (cmp_eq_gt_iff _ _).2 (hn.mul_zpow_lt hm hmpos hlt)]
    rfl

/-! ## Exact values -/

variable {x y z : Float} {p q r : Rat}

/-- **The shapes of finite doubles**: a zero, or a canonical mantissa and exponent with a sign. -/
theorem unpack_cases (hx : toRat? x = some p) :
    (∃ s, x.toModel.unpack = .zero s ∧ p = 0) ∨
    ∃ s m e, ∃ hm : 0 < m, x.toModel.unpack = .finite s m e hm ∧ IsCanonical .binary64 m e ∧
      p = s.apply (m : Int) * (2 : Rat) ^ e := by
  unfold toRat? at hx
  cases hu : x.toModel.unpack with
  | infinity s => simp [hu] at hx
  | notANumber => simp [hu] at hx
  | zero s => exact .inl ⟨s, rfl, by simpa [hu] using hx.symm⟩
  | finite s m e hm =>
    refine .inr ⟨s, m, e, hm, rfl, isCanonical_of_unpack hu, ?_⟩
    simpa [hu] using hx.symm

/-- Both zeros have the exact value zero. -/
theorem toRat?_of_zero {s : Sign} (hx : x.toModel.unpack = .zero s) : toRat? x = some 0 := by
  simp [toRat?, hx]

/-- The exact value of a finite double is its signed mantissa, scaled by its exponent. -/
theorem toRat?_of_finite {s : Sign} {hm : 0 < m} (hx : x.toModel.unpack = .finite s m e hm) :
    toRat? x = some (s.apply (m : Int) * (2 : Rat) ^ e) := by
  simp [toRat?, hx]

/-- What has an exact value is a number. -/
theorem isNaN_of_toRat? (hx : toRat? x = some p) : x.isNaN = false := by
  show x.toModel.unpack.isNaN = false
  obtain ⟨s, hu, -⟩ | ⟨s, m, e, hm, hu, -, -⟩ := unpack_cases hx
  · rw [hu]
    rfl
  · rw [hu]
    rfl

/-- The exact value of a **magnitude** is the magnitude of the exact value. -/
theorem toRat?_abs (hx : toRat? x = some p) : toRat? x.abs = some |p| := by
  unfold toRat?
  rw [unpack_abs]
  obtain ⟨s, hu, rfl⟩ | ⟨s, m, e, hm, hu, -, rfl⟩ := unpack_cases hx
  · simp [hu, UnpackedFloat.abs]
  · have hscale : (0 : Rat) < 2 ^ e := by positivity
    cases s <;> simp [hu, UnpackedFloat.abs, Sign.apply, abs_mul, abs_of_pos hscale]

/-- A positive sign keeps a mantissa. -/
theorem cast_apply_positive (m : Nat) : ((Sign.positive.apply m : Int) : Rat) = m := rfl

/-- A negative sign negates a mantissa. -/
theorem cast_apply_negative (m : Nat) : ((Sign.negative.apply m : Int) : Rat) = -m := by
  simp [Sign.apply]

/-- **Finite doubles are compared as numbers.** -/
theorem compare_unpack (hx : toRat? x = some p) (hy : toRat? y = some q) :
    x.toModel.unpack.compare y.toModel.unpack = some (cmp p q) := by
  have hpos {m : Nat} (hm : 0 < m) (e : Int) : 0 < (m : Rat) * 2 ^ e := by positivity
  obtain ⟨s, hu, rfl⟩ | ⟨s, m, d, hm, hu, hcm, rfl⟩ := unpack_cases hx <;>
    obtain ⟨t, hv, rfl⟩ | ⟨t, n, e, hn, hv, hcn, rfl⟩ := unpack_cases hy <;>
    rw [hu, hv]
  · simp [UnpackedFloat.compare]
  · -- a zero is between the numbers of either sign
    cases t with
    | positive => rw [cast_apply_positive, (cmp_eq_lt_iff _ _).2 (hpos hn e)]; rfl
    | negative =>
      rw [cast_apply_negative, neg_mul, (cmp_eq_gt_iff _ _).2 (neg_neg_of_pos (hpos hn e))]
      rfl
  · cases s with
    | positive => rw [cast_apply_positive, (cmp_eq_gt_iff _ _).2 (hpos hm d)]; rfl
    | negative =>
      rw [cast_apply_negative, neg_mul, (cmp_eq_lt_iff _ _).2 (neg_neg_of_pos (hpos hm d))]
      rfl
  · -- between equal signs exponents and mantissas decide, otherwise the signs do
    have hcompare := hcm.compare_eq hcn hm hn
    cases s <;> cases t <;>
      simp only [cast_apply_positive, cast_apply_negative, neg_mul, UnpackedFloat.compare]
    · have hanti : StrictAnti fun a : Rat => -a := fun _ _ h => neg_lt_neg h
      rw [hcompare, cmp_swap, ← hanti.cmp_map_eq]
    · rw [(cmp_eq_lt_iff _ _).2 ((neg_neg_of_pos (hpos hm d)).trans (hpos hn e))]
    · rw [(cmp_eq_gt_iff _ _).2 ((neg_neg_of_pos (hpos hn e)).trans (hpos hm d))]
    · rw [hcompare]

/-- The strict order of doubles is told by comparing what their bits are unpacked to. -/
theorem lt_iff_compare : x < y ↔ x.toModel.unpack.compare y.toModel.unpack = some .lt := by
  have hmodel : x < y ↔ x.toModel < y.toModel := decide_eq_true_iff
  have hcompare : x.toModel < y.toModel ↔
      (x.toModel.unpack.compare y.toModel.unpack == some .lt) = true := Iff.rfl
  rw [hmodel, hcompare, beq_iff_eq]

/-- So is the order; what is not a number compares to nothing. -/
theorem le_iff_compare :
    x ≤ y ↔ (x.toModel.unpack.compare y.toModel.unpack).any (·.isLE) = true := by
  have hmodel : x ≤ y ↔ x.toModel ≤ y.toModel := decide_eq_true_iff
  exact hmodel.trans Iff.rfl

/-- **The order** of finite doubles is that of the numbers they stand for. -/
theorem lt_iff (hx : toRat? x = some p) (hy : toRat? y = some q) : x < y ↔ p < q := by
  rw [lt_iff_compare, compare_unpack hx hy, Option.some_inj, cmp_eq_lt_iff]

/-- The same for the order that is not strict. -/
theorem le_iff (hx : toRat? x = some p) (hy : toRat? y = some q) : x ≤ y ↔ p ≤ q := by
  rw [le_iff_compare, compare_unpack hx hy]
  rcases lt_trichotomy p q with h | rfl | h
  · simp [(cmp_eq_lt_iff _ _).2 h, h.le]
  · simp [cmp_self_eq_eq]
  · simp [(cmp_eq_gt_iff _ _).2 h, h]

/-- What evaluating a double shows about its exact value holds of that value. -/
theorem exists_toRat?_of_any {P : Rat → Prop} [DecidablePred P]
    (h : (toRat? x).any (fun p => decide (P p)) = true) : ∃ p, toRat? x = some p ∧ P p := by
  obtain ⟨p, hp, hP⟩ := (Option.any_eq_true ..).1 h
  exact ⟨p, hp, of_decide_eq_true hP⟩

/-- A double below another one is not above it. -/
protected theorem le_of_lt (h : x < y) : x ≤ y := by
  rw [lt_iff_compare] at h
  rw [le_iff_compare, h]
  rfl

/-- What lies between finite doubles is finite itself. -/
theorem exists_toRat?_of_le_of_le (hx : toRat? x = some p) (hz : toRat? z = some r) (hxy : x ≤ y)
    (hyz : y ≤ z) : ∃ q, toRat? y = some q := by
  rw [le_iff_compare] at hxy hyz
  unfold toRat?
  cases hv : y.toModel.unpack with
  | zero s => exact ⟨_, rfl⟩
  | finite s m e hm => exact ⟨_, rfl⟩
  | notANumber =>
    rw [hv] at hyz
    cases hyz
  | infinity s =>
    -- it would be below the upper bound if positive, and above the lower bound if negative
    cases s with
    | positive =>
      rw [hv] at hyz
      obtain ⟨t, hw, -⟩ | ⟨t, m, e, hm, hw, -, -⟩ := unpack_cases hz <;>
        simp [hw, UnpackedFloat.compare] at hyz
    | negative =>
      rw [hv] at hxy
      obtain ⟨t, hw, -⟩ | ⟨t, m, e, hm, hw, -, -⟩ := unpack_cases hx <;>
        simp [hw, UnpackedFloat.compare] at hxy

/-- **Clamping** any double between finite ones gives a finite one between them. -/
theorem exists_toRat?_clamp (hx : toRat? x = some p) (hz : toRat? z = some r) (hpr : p ≤ r)
    (y : Float) : ∃ q, toRat? (max x (min y z)) = some q ∧ p ≤ q ∧ q ≤ r := by
  have hmin : min y z = if y ≤ z then y else z := rfl
  have hmax : max x (min y z) = if x ≤ min y z then min y z else x := rfl
  -- the upper bound also stands in for what is not a number
  have hle : min y z ≤ z := by
    rw [hmin]
    split_ifs with hyz
    · exact hyz
    · exact (le_iff hz hz).2 le_rfl
  rw [hmax]
  by_cases hxy : x ≤ min y z
  · obtain ⟨q, hq⟩ := exists_toRat?_of_le_of_le hx hz hxy hle
    rw [if_pos hxy]
    exact ⟨q, hq, (le_iff hx hq).1 hxy, (le_iff hq hz).1 hle⟩
  · rw [if_neg hxy]
    exact ⟨p, hx, le_rfl, hpr⟩

/-! ## Decimal logarithms -/

/-- The logarithm of zero is minus infinity. -/
theorem log10_of_zero (hx : toRat? x = some 0) : log10 x = -(1 / 0) := by
  simp only [log10, hx, if_true]

/-- **The range of logarithms**: that of a positive number is a number between those of the least
and the largest double. -/
theorem exists_toRat?_log10 (hx : toRat? x = some p) (hp : 0 < p) :
    ∃ q, toRat? (log10 x) = some q ∧ -324 ≤ q ∧ q ≤ 309 := by
  have hleast : toRat? (-324) = some (-324) := by decide +kernel
  have hlargest : toRat? 309 = some 309 := by decide +kernel
  simp only [log10, hx, hp.ne', not_lt.2 hp.le, if_false]
  exact exists_toRat?_clamp hleast hlargest (by norm_num) _

end Keypad.Double
