import Keypad.Proofs.Display.Canonical

/-! # Counting the places

How many places are kept in fixed notation is counted in 64-bit integers, from the logarithm of the
magnitude and the limits of the display. Whatever these are, no more places are kept than the fraction
may have. The digits before the point are always counted, but taking them away from the limit of
significant digits may leave the **range** of 64-bit integers: for zero, whose logarithm is minus
infinity, and for limits near the end of the range. Then the count overflows and the value has no
text. With the default thresholds every value has one. -/

namespace Keypad.Display

open Keypad.Double

/-! ## Steps of the count -/

section Steps

variable {step e : Overflow} {n : Int}

/-- A number fits if it needs no more than 63 bits and a sign. -/
theorem fits64_iff : Fits64 n ↔ -2 ^ 63 ≤ n ∧ n < 2 ^ 63 := by
  rw [Fits64, Int64.toInt_minValue, Int64.toInt_maxValue]
  omega

/-- A number that fits is counted **as it is**. -/
theorem exists_counted_eq_ok (step : Overflow) (h : Fits64 n) :
    ∃ i, counted step n = .ok i ∧ i.toInt = n := by
  obtain ⟨hge, hlt⟩ := fits64_iff.1 h
  exact ⟨_, if_pos h, Int64.toInt_ofInt_of_le hge hlt⟩

/-- A step **overflows** exactly if its result does not fit. -/
theorem counted_eq_error_iff : counted step n = .error e ↔ e = step ∧ ¬ Fits64 n := by
  rw [counted]
  by_cases h : Fits64 n
  · simp [h]
  · simp [h, eq_comm]

/-- A limit of digits from the upper half of the range of machine words is taken as a negative one. -/
theorem toInt_toInt64 {n : Nat} (hn : n < 2 ^ 64) :
    n.toInt64.toInt = if n < 2 ^ 63 then (n : Int) else n - 2 ^ 64 := by
  show (Int64.ofNat n).toInt = _
  rw [Int64.toInt_ofNat', Int64.size, Int.bmod_def]
  split <;> split <;> omega

/-- **What is left of a limit** fits exactly if adding the digits would not leave the half of the range
of machine words in which the limit is. -/
theorem fits64_sub_iff {n : Nat} (hn : n < 2 ^ 64) {d : Int} (hge : -2 ^ 63 < d) (hlt : d < 2 ^ 63) :
    Fits64 (n.toInt64.toInt - d) ↔ ((n : Int) < 2 ^ 63 ↔ (n : Int) < 2 ^ 63 + d) := by
  rw [toInt_toInt64 hn, fits64_iff]
  split <;> omega

end Steps

/-! ## The number of places -/

variable {o : Options} {l : Float} {d : Int64} {p r : Rat} {x : Float}

/-- Once the digits before the point are counted, only taking them away may overflow. -/
theorem places_of_digitsBefore (o : Options) (h : digitsBefore l = .ok d) :
    places o l = (counted .subtraction (o.maxSignificant.toInt64.toInt - d.toInt)).map
      fun left => (min (max left 0) o.maxFraction.toInt64).toUInt64.toNat := by
  rw [places, h]
  rfl

/-- The places can be counted exactly if what is left of the significant digits fits. -/
theorem exists_places_eq_ok_iff (h : digitsBefore l = .ok d) :
    (∃ n, places o l = .ok n) ↔ Fits64 (o.maxSignificant.toInt64.toInt - d.toInt) := by
  rw [places_of_digitsBefore o h, counted]
  generalize o.maxSignificant.toInt64.toInt - d.toInt = left
  by_cases hfits : Fits64 left <;> simp [hfits, Except.map]

/-- The count overflows exactly if what is left of the significant digits does not fit. -/
theorem places_eq_error_iff (h : digitsBefore l = .ok d) {e : Overflow} :
    places o l = .error e ↔
      e = .subtraction ∧ ¬ Fits64 (o.maxSignificant.toInt64.toInt - d.toInt) := by
  rw [← counted_eq_error_iff, places_of_digitsBefore o h]
  generalize o.maxSignificant.toInt64.toInt - d.toInt = left
  cases counted .subtraction left <;> simp [Except.map]

/-- No more places are kept than the fraction may have, whatever is left of the other limit. -/
theorem toNat_min_max_le (left : Int64) (n : Nat) :
    (min (max left 0) n.toInt64).toUInt64.toNat ≤ n := by
  have hlimit : n.toInt64.toUInt64.toNat ≤ n := by
    show (UInt64.ofNat n).toNat ≤ n
    rw [UInt64.toNat_ofNat']
    exact Nat.mod_le _ _
  have hleft : 0 ≤ max left 0 := by
    show 0 ≤ if left ≤ 0 then 0 else left
    split
    · exact Int64.le_refl 0
    · next hpos => exact Int64.le_of_lt (Int64.not_le.1 hpos)
  -- a limit that is taken as a negative one is the lesser, and is read as the large one it was
  show (if max left 0 ≤ n.toInt64 then max left 0 else n.toInt64).toUInt64.toNat ≤ n
  split
  · next hle => exact (UInt64.le_iff_toNat_le.1 (Int64.toUInt64_le hleft hle)).trans hlimit
  · exact hlimit

/-- **The limit of the fraction** is kept by every count. -/
theorem places_le {n : Nat} (h : places o l = .ok n) : n ≤ o.maxFraction := by
  cases hd : digitsBefore l with
  | error e =>
    rw [places, hd] at h
    cases h
  | ok d =>
    rw [places_of_digitsBefore o hd] at h
    obtain ⟨left, -, rfl⟩ := map_eq_ok_iff.1 h
    exact toNat_min_max_le left o.maxFraction

/-! ## Logarithms of magnitudes -/

/-- What a decimal logarithm gives for a magnitude: minus infinity for zero, and for every other double
a number, which is at least that of the least one and at most that of the largest one. -/
structure IsLogarithmOf (l : Float) (q : Rat) : Prop where
  zero : q = 0 → l = -(1 / 0)
  bounds : q ≠ 0 → ∃ p, toRat? l = some p ∧ -324 ≤ p ∧ p ≤ 309

/-- The logarithm that values are displayed with is one. -/
theorem isLogarithmOf_log10 (hx : toRat? x = some p) (hp : 0 ≤ p) : IsLogarithmOf (log10 x) p where
  zero hzero := log10_of_zero (hzero ▸ hx)
  bounds hne := exists_toRat?_log10 hx (lt_of_le_of_ne hp hne.symm)

/-- The floor of a number within these bounds is within them. -/
theorem toInt_floor64_bounds (hl : toRat? l = some p) (hge : -324 ≤ p) (hle : p ≤ 309) :
    -324 ≤ (floor64 l).toInt ∧ (floor64 l).toInt ≤ 309 := by
  have hfloorge : -324 ≤ p.floor := Rat.le_floor_iff.2 (by exact_mod_cast hge)
  have hfloorlt : p.floor < 310 := Rat.floor_lt_iff.2 (lt_of_le_of_lt hle (by norm_num))
  have hclamped : floor64 l =
      Int64.ofInt (max Int64.minValue.toInt (min p.floor Int64.maxValue.toInt)) := by
    rw [floor64, hl]
  have hfloor : (floor64 l).toInt = p.floor := by
    rw [hclamped, Int64.toInt_minValue, Int64.toInt_maxValue, Int64.toInt_ofInt_of_le] <;> omega
  omega

/-- The floor of minus infinity is the least 64-bit integer. -/
theorem toInt_floor64_of_zero : (floor64 (-(1 / 0))).toInt = -2 ^ 63 := by decide +kernel

/-- The floor of a logarithm is the least 64-bit integer for zero, and otherwise a small one. -/
theorem IsLogarithmOf.floor (h : IsLogarithmOf l p) :
    (p = 0 → (floor64 l).toInt = -2 ^ 63) ∧
      (p ≠ 0 → -324 ≤ (floor64 l).toInt ∧ (floor64 l).toInt ≤ 309) := by
  refine ⟨fun hp => by rw [h.zero hp, toInt_floor64_of_zero], fun hp => ?_⟩
  obtain ⟨q, hl, hge, hle⟩ := h.bounds hp
  exact toInt_floor64_bounds hl hge hle

/-- **The digits before the point** can always be counted: they are few, or for zero as far below
none as can be counted. -/
theorem IsLogarithmOf.digits (h : IsLogarithmOf l p) :
    ∃ d, digitsBefore l = .ok d ∧ d.toInt = (floor64 l).toInt + 1 ∧
      (p = 0 → d.toInt = 1 - 2 ^ 63) ∧ (p ≠ 0 → -323 ≤ d.toInt ∧ d.toInt ≤ 310) := by
  obtain ⟨hzero, hbounds⟩ := h.floor
  -- the floor is never the greatest integer, so there is one more
  have hfits : Fits64 ((floor64 l).toInt + 1) := by
    rw [fits64_iff]
    by_cases hp : p = 0
    · have := hzero hp
      omega
    · have := hbounds hp
      omega
  obtain ⟨d, hd, hvalue⟩ := exists_counted_eq_ok .addition hfits
  refine ⟨d, hd, hvalue, fun hp => ?_, fun hp => ?_⟩
  · have := hzero hp
    omega
  · have := hbounds hp
    omega

/-! ## Where places are counted -/

/-- A part of the value `r` is **in the range for fixed notation**: it is finite, not below the
threshold for nothing, and its magnitude is between the ends of the range. -/
structure InFixedRange (o : Options) (x : Float) (r : Rat) : Prop where
  value : toRat? x = some r
  shown : ¬ x.abs < o.epsilon
  fixedMin_le : o.fixedMin ≤ x.abs
  lt_fixedMax : x.abs < o.fixedMax

/-- In the range for fixed notation the logarithm of the magnitude decides how many places are kept,
and whether the part can be shown at all. -/
theorem InFixedRange.classify_eq (h : InFixedRange o x r) (log10 : Float → Float) :
    classify o log10 x =
      (places o (log10 x.abs)).map fun n => .shown (decide (r < 0)) (rounded o |r| n) := by
  rw [classify_of_toRat? o log10 h.value, if_neg h.shown, magnitude,
    if_pos (by simp [h.fixedMin_le, h.lt_fixedMax])]
  cases places o (log10 x.abs) <;> rfl

/-- There the part cannot be shown exactly if the count of its places overflows. -/
theorem InFixedRange.classify_eq_error_iff (h : InFixedRange o x r) (log10 : Float → Float)
    {e : Overflow} : classify o log10 x = .error e ↔ places o (log10 x.abs) = .error e := by
  rw [h.classify_eq]
  cases places o (log10 x.abs) <;> simp [Except.map]

/-- A double has no exact value if its magnitude has none. -/
theorem toRat?_abs_eq_none (hx : toRat? x = none) : toRat? x.abs = none := by
  unfold toRat? at hx ⊢
  rw [unpack_abs]
  cases hu : x.toModel.unpack with
  | infinity s => rfl
  | notANumber => rfl
  | zero s => simp [hu] at hx
  | finite s m e hm => simp [hu] at hx

/-- **Everywhere else** a part can be shown, and the logarithm is not even asked for. -/
theorem exists_classify_eq_ok_of_not_inFixedRange (h : ∀ r, ¬ InFixedRange o x r) :
    ∃ part, ∀ log10, classify o log10 x = .ok part := by
  cases hx : toRat? x with
  | none =>
    -- not a number, below the threshold for nothing, or infinite
    refine ⟨if x.isNaN then .notANumber else if x.abs < o.epsilon then .nothing
      else .shown (x < 0) .infinite, fun log10 => ?_⟩
    rw [classify, toRat?_abs_eq_none hx]
    split
    · rfl
    · split <;> rfl
  | some r =>
    -- below the threshold for nothing, or in scientific notation
    refine ⟨if x.abs < o.epsilon then .nothing
      else .shown (decide (r < 0)) (scientific o |r|), fun log10 => ?_⟩
    rw [classify_of_toRat? o log10 hx]
    by_cases hbelow : x.abs < o.epsilon
    · rw [if_pos hbelow, if_pos hbelow]
    · have hrange : ¬ (o.fixedMin ≤ x.abs && x.abs < o.fixedMax) = true := by
        intro hrange
        rw [Bool.and_eq_true, decide_eq_true_iff, decide_eq_true_iff] at hrange
        exact h r ⟨hx, hbelow, hrange.1, hrange.2⟩
      rw [if_neg hbelow, if_neg hbelow, magnitude, if_neg hrange]
      rfl

/-! ## When the count overflows -/

/-- **Zero** leaves what fits only if no digits are wanted, or so many that the limit is taken as a
negative one. -/
theorem IsLogarithmOf.exists_places_iff_of_zero (h : IsLogarithmOf l 0)
    (hsize : o.maxSignificant < 2 ^ 64) :
    (∃ n, places o l = .ok n) ↔ o.maxSignificant = 0 ∨ 2 ^ 63 ≤ o.maxSignificant := by
  obtain ⟨d, hd, -, hzero, -⟩ := h.digits
  have hdigits := hzero rfl
  rw [exists_places_eq_ok_iff hd, fits64_sub_iff hsize (by omega) (by omega), hdigits]
  omega

/-- **Any other magnitude** leaves what fits unless the limit is so close to the middle of the machine
words that adding the digits before the point crosses it. -/
theorem exists_places_iff_of_bounds (hd : digitsBefore l = .ok d) (hge : -323 ≤ d.toInt)
    (hle : d.toInt ≤ 310) (hsize : o.maxSignificant < 2 ^ 64) :
    (∃ n, places o l = .ok n) ↔
      ((o.maxSignificant : Int) < 2 ^ 63 ↔ (o.maxSignificant : Int) < 2 ^ 63 + d.toInt) := by
  rw [exists_places_eq_ok_iff hd]
  exact fits64_sub_iff hsize (by omega) (by omega)

/-- **Few digits** leave what fits for every magnitude but zero. -/
theorem IsLogarithmOf.exists_places_of_few (h : IsLogarithmOf l p) (hp : p ≠ 0)
    (hfew : o.maxSignificant < 2 ^ 62) : ∃ n, places o l = .ok n := by
  obtain ⟨d, hd, -, -, hbounds⟩ := h.digits
  obtain ⟨hge, hle⟩ := hbounds hp
  exact (exists_places_iff_of_bounds hd hge hle (by omega)).2 (iff_of_true (by omega) (by omega))

/-- **Counting places.** Outside the range for fixed notation a part can be shown and no logarithm is
asked for. In the range the digits before the point are counted within 64 bits, a count that succeeds
keeps no more places than the fraction may have, and a part cannot be shown exactly if the count
overflows, which only taking away the digits before the point can do. For zero that step succeeds
only if no digits are wanted, or so many that the limit is taken as a negative one; for any other
magnitude it succeeds unless the limit is so close to the middle of the machine words that adding the
digits before the point crosses it. -/
theorem places_fit (hsize : o.maxSignificant < 2 ^ 64) (log10 : Float → Float) (x : Float) :
    ((∀ r, ¬ InFixedRange o x r) → ∃ part, ∀ log10', classify o log10' x = .ok part) ∧
    ∀ r, InFixedRange o x r → IsLogarithmOf (log10 x.abs) |r| →
      (∃ d, digitsBefore (log10 x.abs) = .ok d ∧ d.toInt = (floor64 (log10 x.abs)).toInt + 1 ∧
        ((∃ n, places o (log10 x.abs) = .ok n) ↔
          Fits64 (o.maxSignificant.toInt64.toInt - d.toInt)) ∧
        (r = 0 → ((∃ n, places o (log10 x.abs) = .ok n) ↔
          o.maxSignificant = 0 ∨ 2 ^ 63 ≤ o.maxSignificant)) ∧
        (r ≠ 0 → -323 ≤ d.toInt ∧ d.toInt ≤ 310 ∧ ((∃ n, places o (log10 x.abs) = .ok n) ↔
          ((o.maxSignificant : Int) < 2 ^ 63 ↔ (o.maxSignificant : Int) < 2 ^ 63 + d.toInt)))) ∧
      (∀ n, places o (log10 x.abs) = .ok n → n ≤ o.maxFraction) ∧
      (∀ e, places o (log10 x.abs) = .error e → e = .subtraction) ∧
      ∀ e, classify o log10 x = .error e ↔ places o (log10 x.abs) = .error e := by
  refine ⟨exists_classify_eq_ok_of_not_inFixedRange, fun r hrange hlog => ?_⟩
  obtain ⟨d, hd, hvalue, -, hbounds⟩ := hlog.digits
  refine ⟨⟨d, hd, hvalue, exists_places_eq_ok_iff hd, fun hr => ?_, fun hr => ?_⟩,
    fun n => places_le, fun e he => ((places_eq_error_iff hd).1 he).1,
    fun e => hrange.classify_eq_error_iff log10⟩
  · rw [hr, abs_zero] at hlog
    exact hlog.exists_places_iff_of_zero hsize
  · obtain ⟨hge, hle⟩ := hbounds (abs_ne_zero.2 hr)
    exact ⟨hge, hle, exists_places_iff_of_bounds hd hge hle hsize⟩

/-- The exact value of the double nearest to a twentieth. -/
theorem toRat?_twentieth : toRat? 0.05 = some (3602879701896397 / 2 ^ 56) := by decide +kernel

/-- The decimal logarithm of a twentieth. -/
theorem isLogarithmOf_twentieth :
    IsLogarithmOf (-1.3010299956639813) |3602879701896397 / 2 ^ 56| := by
  refine ⟨fun hzero => ?_, fun _ => ?_⟩
  · norm_num at hzero
  · exact exists_toRat?_of_any (by decide +kernel)

/-- With the default limits the places of a twentieth can be counted, and for zero nothing is. -/
theorem places_fit_twentieth :
    InFixedRange {} 0.05 (3602879701896397 / 2 ^ 56) ∧
    (∃ d, digitsBefore (-1.3010299956639813) = .ok d ∧ -323 ≤ d.toInt ∧ d.toInt ≤ 310) ∧
    (∃ n, places {} (-1.3010299956639813) = .ok n ∧ n ≤ 10) ∧
    ∃ part, ∀ log10, classify {} log10 0 = .ok part := by
  have hrange : InFixedRange {} 0.05 (3602879701896397 / 2 ^ 56) :=
    ⟨toRat?_twentieth, by decide +kernel, by decide +kernel, by decide +kernel⟩
  have hsize : ({} : Options).maxSignificant < 2 ^ 64 := by norm_num
  obtain ⟨⟨d, hd, -, -, -, hiff⟩, hlimit, -⟩ :=
    (places_fit hsize (fun _ => -1.3010299956639813) 0.05).2 _ hrange isLogarithmOf_twentieth
  obtain ⟨hge, hle, hiff⟩ := hiff (by norm_num)
  have hzero (r : Rat) : ¬ InFixedRange {} 0 r := fun h => h.shown (by decide +kernel)
  -- ten digits are far from the middle of the machine words
  have hten : (({} : Options).maxSignificant : Int) = 10 := rfl
  rw [hten] at hiff
  obtain ⟨n, hn⟩ := hiff.2 (iff_of_true (by norm_num) (by omega))
  exact ⟨hrange, ⟨d, hd, hge, hle⟩, ⟨n, hn, hlimit n hn⟩,
    (places_fit hsize (fun _ => -1.3010299956639813) 0).1 hzero⟩

/-- With as many significant digits as a 64-bit integer can count a twentieth, which has a digit
**less** than none before the point, leaves more than that, and its value has no text. With no
threshold for nothing the count overflows for zero as well, already with the default limits. -/
theorem not_places_fit :
    (InFixedRange { maxSignificant := 9223372036854775807 } 0.05 (3602879701896397 / 2 ^ 56) ∧
      IsLogarithmOf (-1.3010299956639813) |3602879701896397 / 2 ^ 56| ∧
      places { maxSignificant := 9223372036854775807 } (-1.3010299956639813) =
        .error .subtraction ∧
      textWith (fun _ => -1.3010299956639813) { maxSignificant := 9223372036854775807 } ⟨0.05, 0⟩ =
        .error .subtraction) ∧
    InFixedRange { epsilon := 0, fixedMin := 0 } 0 0 ∧
      Value.textWith { epsilon := 0, fixedMin := 0 } ⟨0, 0⟩ = .error .subtraction := by
  have hrange : InFixedRange { maxSignificant := 9223372036854775807 } 0.05
      (3602879701896397 / 2 ^ 56) :=
    ⟨toRat?_twentieth, by decide +kernel, by decide +kernel, by decide +kernel⟩
  have hcount : places { maxSignificant := 9223372036854775807 } (-1.3010299956639813) =
      .error .subtraction := by
    decide +kernel
  have hpart : classify { maxSignificant := 9223372036854775807 } (fun _ => -1.3010299956639813)
      0.05 = .error .subtraction :=
    (hrange.classify_eq_error_iff _).2 hcount
  have hzero : InFixedRange { epsilon := 0, fixedMin := 0 } 0 0 :=
    ⟨by decide +kernel, by decide +kernel, by decide +kernel, by decide +kernel⟩
  have hzeroPart : classify { epsilon := 0, fixedMin := 0 } log10 0 = .error .subtraction := by
    have habs : toRat? (0 : Float).abs = some 0 := by decide +kernel
    rw [hzero.classify_eq_error_iff, log10_of_zero habs]
    decide +kernel
  -- the real part is classified first, so its overflow is that of the value
  refine ⟨⟨hrange, isLogarithmOf_twentieth, hcount, ?_⟩, hzero, ?_⟩
  · rw [textWith, hpart]
    rfl
  · rw [Value.textWith, textWith, hzeroPart]
    rfl

/-! ## The default thresholds -/

/-- Zero is below the default threshold for nothing. -/
theorem InFixedRange.ne_zero (h : InFixedRange {} x r) : r ≠ 0 := by
  rintro rfl
  obtain ⟨p, hp, hpos⟩ := exists_toRat?_epsilon
  have habs := toRat?_abs h.value
  rw [abs_zero] at habs
  exact h.shown ((lt_iff habs hp).2 hpos)

/-- With the default thresholds **every part can be shown**. -/
theorem exists_classify_default (x : Float) : ∃ part, classify {} log10 x = .ok part := by
  by_cases h : ∃ r, InFixedRange {} x r
  · obtain ⟨r, hrange⟩ := h
    have hlog := isLogarithmOf_log10 (toRat?_abs hrange.value) (abs_nonneg r)
    have hfew : ({} : Options).maxSignificant < 2 ^ 62 := by norm_num
    obtain ⟨n, hn⟩ := hlog.exists_places_of_few (abs_ne_zero.2 hrange.ne_zero) hfew
    rw [hrange.classify_eq, hn]
    exact ⟨_, rfl⟩
  · obtain ⟨part, hpart⟩ := exists_classify_eq_ok_of_not_inFixedRange (not_exists.1 h)
    exact ⟨part, hpart _⟩

/-- With the default thresholds **every value has a text**: its display text, which joins its parts. -/
theorem exists_display_eq_join (v : Value) :
    ∃ re im, classify {} log10 v.re = .ok re ∧ classify {} log10 v.im = .ok im ∧
      v.textWith {} = .ok v.display ∧ v.display = join re im := by
  obtain ⟨re, hre⟩ := exists_classify_default v.re
  obtain ⟨im, him⟩ := exists_classify_default v.im
  have htext : v.textWith {} = .ok (join re im) := by
    rw [Value.textWith, textWith, hre, him]
    rfl
  refine ⟨re, im, hre, him, ?_, ?_⟩ <;> rw [Value.display, Value.displayWith, htext]

end Keypad.Display
