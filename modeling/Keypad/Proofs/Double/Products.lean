import Keypad.Proofs.Double.Classes

/-! # Products by one and by zero

A double multiplied by one is the double itself, because its mantissa is shifted out and back again.
Multiplied by zero it is a zero if it is finite, and undefined otherwise; a zero that is added or
subtracted makes no difference, and what is undefined spoils all of it. -/

namespace Keypad.Double

open Float.Model UnpackedFloat

/-! ## Canonical mantissas -/

/-- A mantissa and an exponent are **canonical** for a format if rounding keeps the exponent. -/
def IsCanonical (spec : Format) (m : Nat) (e : Int) : Prop :=
  spec.targetExponent (totalExponent m e) = e

/-- Shifting out zero bits of a mantissa gives an exact mantissa. -/
theorem shiftRight_exact (m k : Nat) :
    (⟨m * 2 ^ k, false, false⟩ : ExtendedMantissa) >>> k = ⟨m, false, false⟩ := by
  show Nat.repeat ExtendedMantissa.shiftRightOne k ⟨m * 2 ^ k, false, false⟩ = _
  induction k generalizing m with
  | zero => rw [pow_zero, mul_one]; rfl
  | succ k ih =>
    have hsplit : m * 2 ^ (k + 1) = (m * 2) * 2 ^ k := by ring
    rw [Nat.repeat, hsplit, ih, ExtendedMantissa.shiftRightOne]
    simp

/-- A power of two adds its exponent to the logarithm. -/
theorem log2_mul_two_pow {m : Nat} (hm : 0 < m) (k : Nat) : (m * 2 ^ k).log2 = m.log2 + k := by
  induction k with
  | zero => rw [pow_zero, mul_one, add_zero]
  | succ k ih =>
    have hsplit : m * 2 ^ (k + 1) = 2 * (m * 2 ^ k) := by ring
    have hne : m * 2 ^ k ≠ 0 := by positivity
    rw [hsplit, Nat.log2_two_mul hne, ih, add_assoc]

/-- A canonical mantissa with zero bits behind it is shifted back to its exponent. -/
theorem shiftToTargetExponent_exact {spec : Format} {m : Nat} {e : Int} (h : IsCanonical spec m e)
    (hm : 0 < m) (k : Nat) :
    shiftToTargetExponent spec (m * 2 ^ k) (e - k) .exact = (⟨m, false, false⟩, e) := by
  have htotal : totalExponent (m * 2 ^ k) (e - k) = totalExponent m e := by
    rw [totalExponent, totalExponent, log2_mul_two_pow hm]
    push_cast
    ring
  have hk : (e - (e - (k : Int))).toNat = k := by omega
  rw [shiftToTargetExponent, htotal, h, shiftToExponent, hk,
    ExtendedMantissa.ofMantissaAndAccuracy, shiftRight_exact, sub_add_cancel]

/-- Rounding a canonical mantissa with zero bits behind it gives it back. -/
theorem roundWithAccuracy_exact {spec : Format} {m : Nat} {e : Int} (h : IsCanonical spec m e)
    (hm : 0 < m) (s : Sign) (k : Nat) :
    roundWithAccuracy spec s (m * 2 ^ k) (e - k) .exact = .finite s m e hm := by
  have hkeep := shiftToTargetExponent_exact h hm 0
  rw [pow_zero, mul_one, Nat.cast_zero, sub_zero] at hkeep
  have hround : (⟨m, false, false⟩ : ExtendedMantissa).roundedMantissa = m := rfl
  rw [roundWithAccuracy, shiftToTargetExponent_exact h hm k]
  dsimp only
  rw [hround, hkeep]
  exact dif_neg (Nat.ne_of_gt hm)

/-- What being canonical means for doubles: 53 bits, unless the exponent is the least one. -/
theorem isCanonical_binary64_iff {m : Nat} {e : Int} :
    IsCanonical .binary64 m e ↔ max ((m.log2 : Int) + 1 + e - 53) (-1074) = e := Iff.rfl

/-- Unpacked bits are canonical: the mantissa has all its bits, or the exponent is the least one. -/
theorem isCanonical_of_unpack {b : BitVec Format.binary64.numBits} {s : Sign} {m : Nat} {e : Int}
    {hm : 0 < m} (h : UnpackedFloat.unpack .binary64 b = .finite s m e hm) :
    IsCanonical .binary64 m e := by
  have hbias : (Format.binary64.exponentBias : Int) = 1023 := rfl
  rw [isCanonical_binary64_iff]
  unfold UnpackedFloat.unpack at h
  dsimp only at h
  rw [hbias] at h
  split at h
  · split at h <;> cases h
  · split at h
    · next hzero =>
      split at h
      · cases h
      · -- a subnormal number has fewer bits, and the least exponent
        cases h
        have hlog := (Nat.log2_lt hm.ne').2 (unpackMantissa b).isLt
        rw [hzero, BitVec.toNat_zero]
        change _ < 52 at hlog
        omega
    · -- a normal number has a leading one before the bits that are stored
      next hzero =>
      cases h
      have hlt := (1#1 ++ unpackMantissa b).isLt
      have hge : 2 ^ 52 ≤ (1#1 ++ unpackMantissa b).toNat := by
        rw [BitVec.toNat_append]
        exact Nat.left_le_or
      have hlog : (1#1 ++ unpackMantissa b).toNat.log2 = 52 := (Nat.log2_eq_iff hm.ne').2 ⟨hge, hlt⟩
      have hpos : 0 < (unpackExponent b).toNat := by
        refine Nat.pos_of_ne_zero fun h0 => hzero ?_
        exact BitVec.eq_of_toNat_eq (h0.trans BitVec.toNat_zero.symm)
      rw [hlog]
      omega

/-! ## Operations on what doubles are unpacked to -/

/-- What is packed again is the same double. -/
theorem pack_unpack_toModel (x : Float) : Float.Model.pack x.toModel.unpack = x.toModel := by
  obtain ⟨bits, hvalid⟩ := x.toModel
  have hbits : UnpackedFloat.pack .binary64 (UnpackedFloat.unpack .binary64 bits.toBitVec) =
      bits.toBitVec := pack_unpack_of_valid hvalid
  simp only [Float.Model.pack, Float.Model.unpack, hbits]

/-- A zero survives packing with its sign. -/
theorem unpack_pack_zero (s : Sign) : (Float.Model.pack (.zero s)).unpack = .zero s :=
  unpack_packedZero

/-- What is not a number survives packing. -/
theorem unpack_pack_notANumber : (Float.Model.pack .notANumber).unpack = .notANumber :=
  unpack_packedNaN

/-- One has the leading bit of the mantissa and nothing else. -/
theorem unpack_one : (1 : Float).toModel.unpack = .finite .positive (2 ^ 52) (-52) (by positivity) :=
  rfl

/-- Zero is unpacked to the positive zero. -/
theorem unpack_zero : (0 : Float).toModel.unpack = .zero .positive := rfl

/-- A double is undefined exactly if it is unpacked to what is no number. -/
theorem isNaN_iff_unpack {x : Float} : x.isNaN = true ↔ x.toModel.unpack = .notANumber :=
  UnpackedFloat.isNaN_iff

/-- **One is neutral**: no bit is lost. -/
theorem one_mul (x : Float) : 1 * x = x := by
  have hmul : UnpackedFloat.mul .binary64 (1 : Float).toModel.unpack x.toModel.unpack =
      x.toModel.unpack := by
    rw [unpack_one]
    cases hx : x.toModel.unpack with
    | notANumber => rfl
    | infinity s => cases s <;> rfl
    | zero s => cases s <;> rfl
    | finite s m e hm =>
      -- one has the mantissa `2 ^ 52`, so the product is the mantissa shifted by 52 bits
      have hround := roundWithAccuracy_exact (isCanonical_of_unpack hx) hm (.positive * s) 52
      rw [mul_comm, sub_eq_neg_add] at hround
      have hsign : Sign.positive * s = s := by cases s <;> rfl
      exact hround.trans (by rw [hsign])
  have hmodel : (1 * x).toModel = x.toModel :=
    (congrArg Float.Model.pack hmul).trans (pack_unpack_toModel x)
  exact congrArg Float.ofModel hmodel

/-- Zero times a finite double is a zero. -/
theorem unpack_zero_mul {x : Float} (h : x.isFinite = true) :
    ∃ s, (0 * x).toModel.unpack = .zero s := by
  have hx : x.toModel.unpack.isFinite = true := h
  have hmul : (0 * x).toModel.unpack =
      (Float.Model.pack (UnpackedFloat.mul .binary64 (.zero .positive) x.toModel.unpack)).unpack := rfl
  rw [hmul]
  -- a product with zero is computed as a zero for all that is finite
  cases hu : x.toModel.unpack with
  | zero s => exact ⟨_, unpack_pack_zero _⟩
  | finite s m e hm => exact ⟨_, unpack_pack_zero _⟩
  | infinity s =>
    rw [hu] at hx
    cases hx
  | notANumber =>
    rw [hu] at hx
    cases hx

/-- Zero times a double that is not finite is undefined. -/
theorem isNaN_zero_mul {x : Float} (h : x.isFinite = false) : (0 * x).isNaN = true := by
  have hx : x.toModel.unpack.isFinite = false := h
  have hmul : (0 * x).toModel.unpack =
      (Float.Model.pack (UnpackedFloat.mul .binary64 (.zero .positive) x.toModel.unpack)).unpack := rfl
  rw [isNaN_iff_unpack, hmul]
  cases hu : x.toModel.unpack with
  | infinity s => exact unpack_pack_notANumber
  | notANumber => exact unpack_pack_notANumber
  | zero s =>
    rw [hu] at hx
    cases hx
  | finite s m e hm =>
    rw [hu] at hx
    cases hx

/-! ## Agreement -/

/-- Two doubles **agree** if they are equal or both undefined. Zeros are equal whatever their sign. -/
def Agrees (x y : Float) : Prop := (x == y) = true ∨ (x.isNaN = true ∧ y.isNaN = true)

instance (x y : Float) : Decidable (Agrees x y) :=
  inferInstanceAs (Decidable ((x == y) = true ∨ (x.isNaN = true ∧ y.isNaN = true)))

/-- Doubles are equal if what they are unpacked to compares as equal. -/
theorem beq_iff_compare {x y : Float} :
    (x == y) = true ↔ x.toModel.unpack.compare y.toModel.unpack = some .eq := by
  show (x.toModel.unpack.compare y.toModel.unpack == some .eq) = true ↔ _
  exact beq_iff_eq

/-- Every double agrees with itself, also one that does not equal itself. -/
theorem agrees_refl (x : Float) : Agrees x x := by
  rw [Agrees, beq_iff_compare, isNaN_iff_unpack]
  cases x.toModel.unpack with
  | notANumber => exact .inr ⟨rfl, rfl⟩
  | infinity s => cases s <;> exact .inl rfl
  | zero s => exact .inl rfl
  | finite s m e hm =>
    refine .inl ?_
    cases s <;> simp [UnpackedFloat.compare]

/-- All zeros agree. -/
theorem agrees_of_zero {x y : Float} {s t : Sign} (hx : x.toModel.unpack = .zero s)
    (hy : y.toModel.unpack = .zero t) : Agrees x y := by
  refine .inl (beq_iff_compare.2 ?_)
  rw [hx, hy]
  rfl

/-- What agrees with an undefined number is undefined. -/
theorem agrees_iff_of_isNaN {x y : Float} (hx : x.isNaN = true) : Agrees x y ↔ y.isNaN = true := by
  have hne : (x == y) ≠ true := by
    rw [Ne, beq_iff_compare, isNaN_iff_unpack.1 hx]
    cases y.toModel.unpack <;> exact nofun
  rw [Agrees, or_iff_right hne, and_iff_right hx]

/-- Exactly the zeros equal zero. -/
theorem beq_zero_iff {x : Float} : (x == 0) = true ↔ ∃ s, x.toModel.unpack = .zero s := by
  rw [beq_iff_compare, unpack_zero]
  cases x.toModel.unpack with
  | notANumber => simp [UnpackedFloat.compare]
  | infinity s => cases s <;> simp [UnpackedFloat.compare]
  | zero s => simp [UnpackedFloat.compare]
  | finite s m e hm => cases s <;> simp [UnpackedFloat.compare]

/-- A result agrees with a double if it is unpacked alike, or if both are zeros. -/
theorem agrees_of_toModel {x y : Float} {u : UnpackedFloat}
    (hy : y.toModel = Float.Model.pack u)
    (h : u = x.toModel.unpack ∨ ∃ s t, u = .zero s ∧ x.toModel.unpack = .zero t) : Agrees y x := by
  rcases h with rfl | ⟨s, t, rfl, hx⟩
  · have hyx : y = x := congrArg Float.ofModel (hy.trans (pack_unpack_toModel x))
    rw [hyx]
    exact agrees_refl x
  · exact agrees_of_zero (hy ▸ unpack_pack_zero s) hx

/-- A zero that is subtracted makes no difference. -/
theorem agrees_sub_zero {x y : Float} {t : Sign} (hy : y.toModel.unpack = .zero t) :
    Agrees (x - y) x := by
  refine agrees_of_toModel (u := UnpackedFloat.sub .binary64 x.toModel.unpack (.zero t))
    (hy ▸ rfl) ?_
  -- only a zero may come out with another sign
  cases x.toModel.unpack with
  | zero s => exact .inr (by cases s <;> cases t <;> exact ⟨_, _, rfl, rfl⟩)
  | _ => exact .inl rfl

/-- A zero that is added makes no difference. -/
theorem agrees_add_zero {x y : Float} {t : Sign} (hy : y.toModel.unpack = .zero t) :
    Agrees (x + y) x := by
  refine agrees_of_toModel (u := UnpackedFloat.add .binary64 x.toModel.unpack (.zero t))
    (hy ▸ rfl) ?_
  cases x.toModel.unpack with
  | zero s => exact .inr (by cases s <;> cases t <;> exact ⟨_, _, rfl, rfl⟩)
  | _ => exact .inl rfl

/-- An undefined subtrahend makes the difference undefined. -/
theorem isNaN_sub {x y : Float} (hy : y.isNaN = true) : (x - y).isNaN = true := by
  have hsub : (x - y).toModel.unpack =
      (Float.Model.pack (UnpackedFloat.sub .binary64 x.toModel.unpack y.toModel.unpack)).unpack := rfl
  rw [isNaN_iff_unpack, hsub, isNaN_iff_unpack.1 hy]
  cases x.toModel.unpack <;> exact unpack_pack_notANumber

/-- An undefined summand makes the sum undefined. -/
theorem isNaN_add {x y : Float} (hy : y.isNaN = true) : (x + y).isNaN = true := by
  have hadd : (x + y).toModel.unpack =
      (Float.Model.pack (UnpackedFloat.add .binary64 x.toModel.unpack y.toModel.unpack)).unpack := rfl
  rw [isNaN_iff_unpack, hadd, isNaN_iff_unpack.1 hy]
  cases x.toModel.unpack <;> exact unpack_pack_notANumber

/-- What agrees with `x` if zero times `y` is a zero, and is undefined if that is undefined, agrees
with `x` exactly if `y` is finite or `x` is undefined itself. -/
theorem agrees_iff_of_zero_mul {x y r : Float}
    (hzero : ∀ s, (0 * y).toModel.unpack = .zero s → Agrees r x)
    (hnan : (0 * y).isNaN = true → r.isNaN = true) :
    Agrees r x ↔ y.isFinite = true ∨ x.isNaN = true := by
  cases hy : y.isFinite with
  | true =>
    obtain ⟨s, hs⟩ := unpack_zero_mul hy
    exact iff_of_true (hzero s hs) (.inl rfl)
  | false =>
    rw [agrees_iff_of_isNaN (hnan (isNaN_zero_mul hy)), or_iff_right Bool.false_ne_true]

/-- Subtracting zero times a double makes no difference exactly if that double is finite, unless the
difference is from something undefined. -/
theorem agrees_sub_zero_mul_iff (x y : Float) :
    Agrees (x - 0 * y) x ↔ y.isFinite = true ∨ x.isNaN = true :=
  agrees_iff_of_zero_mul (fun _ => agrees_sub_zero) isNaN_sub

/-- The same for adding zero times a double. -/
theorem agrees_add_zero_mul_iff (x y : Float) :
    Agrees (x + 0 * y) x ↔ y.isFinite = true ∨ x.isNaN = true :=
  agrees_iff_of_zero_mul (fun _ => agrees_add_zero) isNaN_add

end Keypad.Double
