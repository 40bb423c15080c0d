import Keypad.Proofs.Decimal.Rounding
import Keypad.Proofs.Double.Order

/-! # The nearest double

A quotient is cut off to a mantissa with a round bit and a sticky bit. These bits say on which side
of the half the quotient lies, and shifting out further bits keeps that knowledge, so the mantissa
that is rounded in the end is a whole number nearest to the quotient in units of its last place.
No double is closer: one with the same or a higher exponent is a whole number of these units, and
one with a lower exponent lies below all mantissas with a leading bit. -/

namespace Keypad.Double

open Float.Model UnpackedFloat

/-! ## Mantissas with residual bits -/

/-- The number of halves in a mantissa with a round bit. -/
def halves (em : ExtendedMantissa) : Nat := 2 * em.mantissa + em.roundBit.toNat

/-- A mantissa with its residual bits **represents** a number: the number has as many halves as are
counted, and with the sticky bit it lies strictly between that count and the next. -/
def Represents (em : ExtendedMantissa) (r : Rat) : Prop :=
  if em.stickyBit then (halves em : Rat) < 2 * r ∧ 2 * r < halves em + 1 else 2 * r = halves em

variable {em : ExtendedMantissa} {r : Rat}

section Bits

variable {m : Nat}

/-- Without residual bits the mantissa is the number. -/
theorem represents_exact : Represents ⟨m, false, false⟩ r ↔ r = m := by
  simp [Represents, halves]

/-- With the sticky bit alone the number is less than half a unit above the mantissa. -/
theorem represents_below_half : Represents ⟨m, false, true⟩ r ↔ (m : Rat) < r ∧ r < m + 1 / 2 := by
  simp only [Represents, halves, if_true, Bool.toNat_false, add_zero]
  push_cast
  constructor <;> rintro ⟨hlow, hhigh⟩ <;> constructor <;> linarith

/-- With the round bit alone the number is exactly half a unit above the mantissa. -/
theorem represents_half : Represents ⟨m, true, false⟩ r ↔ r = m + 1 / 2 := by
  simp only [Represents, halves, Bool.false_eq_true, if_false, Bool.toNat_true]
  push_cast
  constructor <;> intro h <;> linarith

/-- With both bits the number is more than half a unit above the mantissa. -/
theorem represents_above_half :
    Represents ⟨m, true, true⟩ r ↔ (m : Rat) + 1 / 2 < r ∧ r < m + 1 := by
  simp only [Represents, halves, if_true, Bool.toNat_true]
  push_cast
  constructor <;> rintro ⟨hlow, hhigh⟩ <;> constructor <;> linarith

end Bits

/-- What is cut off a quotient of natural numbers is told by the remainder. -/
theorem represents_quotient (m : Nat) {k : Nat} (hk : 0 < k) :
    Represents (.ofMantissaAndAccuracy (m / k) (accuracyOfFraction (m % k) k)) (m / k) := by
  have hpos : (0 : Rat) < k := by exact_mod_cast hk
  have hrest : ((m % k : Nat) : Rat) / k < 1 := by
    rw [div_lt_one hpos]
    exact_mod_cast Nat.mod_lt m hk
  rw [natCast_div_eq m hk, accuracyOfFraction]
  generalize m / k = whole, m % k = rest at hrest
  by_cases h0 : rest = 0
  · rw [if_pos h0, h0, Nat.cast_zero, zero_div, add_zero]
    exact represents_exact.2 rfl
  · have hfraction : 0 < (rest : Rat) / k := by positivity
    rw [if_neg h0]
    -- the rest is compared with half of the divisor
    rcases lt_trichotomy (2 * rest) k with hlt | heq | hgt
    · have hhalf : (rest : Rat) / k < 1 / 2 := by
        rw [div_lt_div_iff₀ hpos two_pos]
        exact_mod_cast (by omega : rest * 2 < 1 * k)
      rw [compare_lt_iff_lt.2 hlt]
      exact represents_below_half.2 ⟨by linarith, by linarith⟩
    · have hhalf : (rest : Rat) / k = 1 / 2 := by
        rw [div_eq_div_iff hpos.ne' two_ne_zero]
        exact_mod_cast (by omega : rest * 2 = 1 * k)
      rw [compare_eq_iff_eq.2 heq, hhalf]
      exact represents_half.2 rfl
    · have hhalf : 1 / 2 < (rest : Rat) / k := by
        rw [div_lt_div_iff₀ two_pos hpos]
        exact_mod_cast (by omega : 1 * k < rest * 2)
      rw [compare_gt_iff_gt.2 hgt]
      exact represents_above_half.2 ⟨by linarith, by linarith⟩

/-- The bit that is shifted out is the new half. -/
theorem halves_shiftRightOne (em : ExtendedMantissa) : halves em.shiftRightOne = em.mantissa := by
  have hbit : (em.mantissa % 2 != 0).toNat = em.mantissa % 2 := by
    rcases Nat.mod_two_eq_zero_or_one em.mantissa with h | h <;> rw [h] <;> rfl
  show 2 * (em.mantissa / 2) + (em.mantissa % 2 != 0).toNat = em.mantissa
  rw [hbit, Nat.div_add_mod]

/-- The old half is told by the sticky bit from then on. -/
theorem Represents.shiftRightOne (h : Represents em r) : Represents em.shiftRightOne (r / 2) := by
  have hsticky : em.shiftRightOne.stickyBit = (em.roundBit || em.stickyBit) := rfl
  rw [Represents, halves_shiftRightOne, hsticky, mul_div_cancel₀ r two_ne_zero]
  obtain ⟨m, round, sticky⟩ := em
  cases round <;> cases sticky
  · exact represents_exact.1 h
  · obtain ⟨hlow, hhigh⟩ := represents_below_half.1 h
    exact ⟨hlow, by linarith⟩
  · have heq := represents_half.1 h
    exact ⟨by linarith, by linarith⟩
  · obtain ⟨hlow, hhigh⟩ := represents_above_half.1 h
    exact ⟨by linarith, hhigh⟩

/-- Shifting by several bits is shifting by one bit several times. -/
theorem Represents.shiftRight (h : Represents em r) (k : Nat) :
    Represents (em >>> k) (r / 2 ^ k) := by
  show Represents (Nat.repeat ExtendedMantissa.shiftRightOne k em) _
  induction k with
  | zero =>
    rw [pow_zero, div_one]
    exact h
  | succ k ih =>
    rw [Nat.repeat, pow_succ, ← div_div]
    exact ih.shiftRightOne

/-- A mantissa that represents a number lies below it by less than one. -/
theorem Represents.bounds (h : Represents em r) :
    (em.mantissa : Rat) ≤ r ∧ r < em.mantissa + 1 := by
  obtain ⟨m, round, sticky⟩ := em
  cases round <;> cases sticky
  · have heq := represents_exact.1 h
    exact ⟨heq.ge, by linarith⟩
  · obtain ⟨hlow, hhigh⟩ := represents_below_half.1 h
    exact ⟨hlow.le, by linarith⟩
  · have heq := represents_half.1 h
    exact ⟨by linarith, by linarith⟩
  · obtain ⟨hlow, hhigh⟩ := represents_above_half.1 h
    exact ⟨by linarith, hhigh⟩

/-- **Rounding goes to a nearest whole number.** -/
theorem Represents.abs_roundedMantissa_sub_le (h : Represents em r) :
    |(em.roundedMantissa : Rat) - r| ≤ 1 / 2 := by
  obtain ⟨m, round, sticky⟩ := em
  rw [abs_le]
  -- the two bits tell whether nothing, less than half, half or more than half is left over
  cases round <;> cases sticky
  · have heq := represents_exact.1 h
    have hrounded : (⟨m, false, false⟩ : ExtendedMantissa).roundedMantissa = m := rfl
    rw [hrounded]
    constructor <;> linarith
  · obtain ⟨hlow, hhigh⟩ := represents_below_half.1 h
    have hrounded : (⟨m, false, true⟩ : ExtendedMantissa).roundedMantissa = m := rfl
    rw [hrounded]
    constructor <;> linarith
  · -- half way up, an odd mantissa goes up and an even one down
    have heq := represents_half.1 h
    have hrounded : (⟨m, true, false⟩ : ExtendedMantissa).roundedMantissa = m + m % 2 := rfl
    have hbit : ((m % 2 : Nat) : Rat) ≤ 1 := by
      exact_mod_cast Nat.le_of_lt_succ (Nat.mod_lt m two_pos)
    have hnonneg : (0 : Rat) ≤ (m % 2 : Nat) := by positivity
    rw [hrounded, Nat.cast_add]
    constructor <;> linarith
  · obtain ⟨hlow, hhigh⟩ := represents_above_half.1 h
    have hrounded : (⟨m, true, true⟩ : ExtendedMantissa).roundedMantissa = m + 1 := rfl
    rw [hrounded, Nat.cast_succ]
    constructor <;> linarith

/-! ## Rounding a quotient to a format -/

/-- A whole number is a **rounding** of a number in units of a power of two if it is nearest and
the exponent is the target of the number: the number has all bits of a mantissa in these units,
unless the exponent is the least one. -/
structure IsRounding (q : Rat) (n : Nat) (e : Int) : Prop where
  near : |(n : Rat) - q / 2 ^ e| ≤ 1 / 2
  le_exponent : -1074 ≤ e
  lt : q / 2 ^ e < 2 ^ 53
  leading : e = -1074 ∨ 2 ^ 52 ≤ q / 2 ^ e

/-- The target exponent of doubles leaves 53 bits, and is never below the least one. -/
theorem targetExponent_binary64 (t : Int) :
    Format.binary64.targetExponent t = max (t - 53) (-1074) := rfl

variable {q : Rat} {m n : Nat} {e : Int} {acc : Accuracy}

/-- Residual bits do not change the mantissa that they are put beside. -/
theorem mantissa_ofMantissaAndAccuracy (m : Nat) (acc : Accuracy) :
    (ExtendedMantissa.ofMantissaAndAccuracy m acc).mantissa = m := by
  rcases acc with _ | o
  · rfl
  · cases o <;> rfl

/-- **Shifting to the target exponent and rounding** is rounding in units of that exponent. -/
theorem isRounding_shiftToTargetExponent
    (h : Represents (.ofMantissaAndAccuracy m acc) (q / 2 ^ e))
    (he : e ≤ Format.binary64.targetExponent (totalExponent m e)) :
    IsRounding q (shiftToTargetExponent .binary64 m e acc).1.roundedMantissa
      (shiftToTargetExponent .binary64 m e acc).2 := by
  rw [targetExponent_binary64, totalExponent] at he
  obtain ⟨k, hk⟩ := Int.eq_ofNat_of_zero_le (sub_nonneg.2 he)
  have htarget : max ((m.log2 : Int) + 1 + e - 53) (-1074) = e + k := by omega
  have hshift : shiftToTargetExponent .binary64 m e acc =
      (ExtendedMantissa.ofMantissaAndAccuracy m acc >>> k, e + k) := by
    rw [shiftToTargetExponent, targetExponent_binary64, totalExponent, htarget, shiftToExponent,
      add_sub_cancel_left, Int.toNat_natCast]
  have hscale : q / 2 ^ (e + k) = q / 2 ^ e / 2 ^ k := by
    rw [zpow_add₀ two_ne_zero, zpow_natCast, div_div]
  have hpow : (0 : Rat) < 2 ^ k := by positivity
  obtain ⟨hge, hlt⟩ := h.bounds
  rw [mantissa_ofMantissaAndAccuracy] at hge hlt
  rw [hshift]
  -- near, within the bits of a mantissa, and with a leading one unless the exponent is least
  refine ⟨?_, by omega, ?_, ?_⟩
  · show |_ - q / 2 ^ (e + k)| ≤ 1 / 2
    rw [hscale]
    exact (h.shiftRight k).abs_roundedMantissa_sub_le
  · show q / 2 ^ (e + k) < 2 ^ 53
    have hbits : (m : Rat) + 1 ≤ 2 ^ 53 * 2 ^ k := by
      have hlog : m < 2 ^ (m.log2 + 1) := Nat.lt_log2_self
      have hmono : 2 ^ (m.log2 + 1) ≤ 2 ^ (53 + k) := Nat.pow_le_pow_right two_pos (by omega)
      rw [← pow_add]
      exact_mod_cast lt_of_lt_of_le hlog hmono
    rw [hscale, div_lt_iff₀ hpow]
    exact lt_of_lt_of_le hlt hbits
  · show e + k = -1074 ∨ 2 ^ 52 ≤ q / 2 ^ (e + k)
    rcases le_total ((m.log2 : Int) + 1 + e - 53) (-1074) with hleast | hleast
    · exact .inl (by omega)
    · -- here the shift leaves exactly the bits of a mantissa
      right
      have hm : m ≠ 0 := by
        rintro rfl
        rw [Nat.log2_zero] at htarget hleast
        omega
      have hbits : (2 : Rat) ^ 52 * 2 ^ k ≤ m := by
        rw [← pow_add]
        exact_mod_cast (Nat.le_log2 hm).1 (by omega)
      rw [hscale, le_div_iff₀ hpow]
      exact hbits.trans hge

/-- A rounding has the bits of a mantissa, or carries into one more. -/
theorem IsRounding.le_two_pow (h : IsRounding q n e) : n ≤ 2 ^ 53 := by
  have hnear := (abs_le.1 h.near).2
  have hlt := h.lt
  have hcast : (n : Rat) < (2 ^ 53 + 1 : Nat) := by
    push_cast
    linarith
  exact Nat.le_of_lt_succ (by exact_mod_cast hcast)

/-- A rounding without a carry is canonical. -/
theorem IsRounding.isCanonical (h : IsRounding q n e) (hn : 0 < n) (hlt : n < 2 ^ 53) :
    IsCanonical .binary64 n e := by
  rw [isCanonical_binary64_iff]
  have hlog : n.log2 < 53 := (Nat.log2_lt hn.ne').2 hlt
  have hleast := h.le_exponent
  rcases h.leading with he | hleading
  · omega
  · -- rounding does not go below a leading bit
    have hnear := (abs_le.1 h.near).1
    have hcast : ((2 ^ 52 - 1 : Nat) : Rat) < n := by
      push_cast
      linarith
    have hge : 2 ^ 52 ≤ n := by
      have : 2 ^ 52 - 1 < n := by exact_mod_cast hcast
      omega
    have : 52 ≤ n.log2 := (Nat.le_log2 hn.ne').2 hge
    omega

/-- The least mantissa with its leading bit set is canonical at every exponent. -/
theorem isCanonical_two_pow (he : -1074 ≤ e) : IsCanonical .binary64 (2 ^ 52) e := by
  have hlog : (2 ^ 52).log2 = 52 := Nat.log2_two_pow
  rw [isCanonical_binary64_iff, hlog]
  omega

/-- Rounding twice: what the first rounding gives is only shifted by the second one. -/
theorem roundWithAccuracy_of_isCanonical {s : Sign} {n : Nat} {d : Int}
    (hc : IsCanonical .binary64 n d) (hn : 0 < n) (k : Nat)
    (hmantissa : (shiftToTargetExponent .binary64 m e acc).1.roundedMantissa = n * 2 ^ k)
    (hexponent : (shiftToTargetExponent .binary64 m e acc).2 = d - k) :
    roundWithAccuracy .binary64 s m e acc = .finite s n d hn := by
  rw [roundWithAccuracy]
  simp only [hmantissa, hexponent, shiftToTargetExponent_exact hc hn k]
  exact dif_neg hn.ne'

/-- What is rounded to no unit at all becomes a zero of the same sign. -/
theorem roundWithAccuracy_of_eq_zero {s : Sign}
    (hmantissa : (shiftToTargetExponent .binary64 m e acc).1.roundedMantissa = 0) :
    roundWithAccuracy .binary64 s m e acc = .zero s := by
  rw [roundWithAccuracy]
  simp only [hmantissa]
  have hshift (k : Nat) := shiftRight_exact 0 k
  simp only [Nat.zero_mul] at hshift
  simp [shiftToTargetExponent, shiftToExponent, ExtendedMantissa.ofMantissaAndAccuracy, hshift]

/-- **A rounded quotient** is a zero, or canonical with the value of the rounding: a carry is
shifted out without a loss. -/
theorem roundWithAccuracy_eq (s : Sign)
    (h : Represents (.ofMantissaAndAccuracy m acc) (q / 2 ^ e))
    (he : e ≤ Format.binary64.targetExponent (totalExponent m e)) :
    ∃ n d, IsRounding q n d ∧ (n = 0 ∧ roundWithAccuracy .binary64 s m e acc = .zero s ∨
      ∃ n' d', ∃ hn' : 0 < n', roundWithAccuracy .binary64 s m e acc = .finite s n' d' hn' ∧
        IsCanonical .binary64 n' d' ∧ d' ≤ d + 1 ∧ (n' : Rat) * 2 ^ d' = n * 2 ^ d) := by
  have hrounding := isRounding_shiftToTargetExponent h he
  refine ⟨_, _, hrounding, ?_⟩
  generalize hn : (shiftToTargetExponent .binary64 m e acc).1.roundedMantissa = n at hrounding ⊢
  generalize hd : (shiftToTargetExponent .binary64 m e acc).2 = d at hrounding ⊢
  rcases Nat.eq_zero_or_pos n with rfl | hpos
  · exact .inl ⟨rfl, roundWithAccuracy_of_eq_zero hn⟩
  · refine .inr ?_
    rcases hrounding.le_two_pow.lt_or_eq with hlt | rfl
    · -- without a carry the first shift already gave a canonical mantissa
      have hc := hrounding.isCanonical hpos hlt
      refine ⟨n, d, hpos, ?_, hc, by omega, rfl⟩
      exact roundWithAccuracy_of_isCanonical hc hpos 0 (by rw [hn, pow_zero, mul_one])
        (by rw [hd, Nat.cast_zero, sub_zero])
    · -- a carry is a power of two, so the second shift drops a zero
      have hleast := hrounding.le_exponent
      have hc : IsCanonical .binary64 (2 ^ 52) (d + 1) := isCanonical_two_pow (by omega)
      refine ⟨2 ^ 52, d + 1, by positivity, ?_, hc, le_rfl, ?_⟩
      · exact roundWithAccuracy_of_isCanonical hc _ 1 hn (by rw [hd]; simp)
      · rw [zpow_add_one₀ two_ne_zero]
        push_cast
        ring

/-! ## No double is closer -/

/-- A whole number within a half is a nearest one. -/
theorem abs_sub_le_of_near {n : Nat} {r : Rat} (h : |(n : Rat) - r| ≤ 1 / 2) (k : Int) :
    |(n : Rat) - r| ≤ |(k : Rat) - r| := by
  by_cases hk : k = n
  · rw [hk, Int.cast_natCast]
  · -- another whole number is a whole unit away from the rounding
    have hone : (1 : Rat) ≤ |(k : Rat) - n| := by
      exact_mod_cast Int.one_le_abs (sub_ne_zero.2 hk)
    have htriangle := abs_sub_le (k : Rat) r n
    rw [abs_sub_comm r] at htriangle
    linarith

/-- Scaled up, a rounding is closest among the whole numbers of its units. -/
theorem IsRounding.abs_sub_le (h : IsRounding q n e) (k : Int) :
    |(n : Rat) * 2 ^ e - q| ≤ |(k : Rat) * 2 ^ e - q| := by
  have hscale : (0 : Rat) < 2 ^ e := by positivity
  have hunits (k : Rat) : |k * 2 ^ e - q| = |k - q / 2 ^ e| * 2 ^ e := by
    rw [← abs_of_pos hscale, ← abs_mul, sub_mul, abs_of_pos hscale, div_mul_cancel₀ _ hscale.ne']
  rw [hunits, hunits]
  exact mul_le_mul_of_nonneg_right (abs_sub_le_of_near h.near k) hscale.le

/-- **A rounding is nearest**: no canonical number is closer. -/
theorem IsRounding.abs_sub_le_of_isCanonical (h : IsRounding q n e) {m : Nat} {d : Int}
    (hc : IsCanonical .binary64 m d) (t : Sign) :
    |(n : Rat) * 2 ^ e - q| ≤ |(t.apply m : Int) * 2 ^ d - q| := by
  rcases le_or_gt e d with hle | hlt
  · -- the canonical number is a whole number of units
    obtain ⟨k, rfl⟩ := Int.le.dest hle
    have hunits :
        ((t.apply m : Int) : Rat) * 2 ^ (e + k) = ((t.apply m * 2 ^ k : Int) : Rat) * 2 ^ e := by
      rw [zpow_add₀ two_ne_zero, zpow_natCast]
      push_cast
      ring
    rw [hunits]
    exact h.abs_sub_le _
  · -- it is below all mantissas with a leading bit, and these are below the number
    have hleast := hc.le_exponent
    have hscale : (0 : Rat) < 2 ^ e := by positivity
    have hleading : (2 : Rat) ^ 52 * 2 ^ e ≤ q :=
      (le_div_iff₀ hscale).1 (h.leading.resolve_left (by omega))
    have hbelow : ((t.apply m : Int) : Rat) * 2 ^ d ≤ 2 ^ 52 * 2 ^ e := by
      have hcanonical := hc.mul_zpow_lt (isCanonical_two_pow (by omega)) (by positivity) hlt
      have happly : ((t.apply m : Int) : Rat) ≤ m := by
        cases t with
        | positive => rw [cast_apply_positive]
        | negative =>
          rw [cast_apply_negative]
          linarith [Nat.cast_nonneg (α := Rat) m]
      push_cast at hcanonical
      exact (mul_le_mul_of_nonneg_right happly (by positivity)).trans hcanonical.le
    have hcast : ((2 ^ 52 : Int) : Rat) = 2 ^ 52 := by norm_num
    calc |(n : Rat) * 2 ^ e - q|
      _ ≤ |((2 ^ 52 : Int) : Rat) * 2 ^ e - q| := h.abs_sub_le (2 ^ 52)
      _ = q - 2 ^ 52 * 2 ^ e := by
        rw [hcast, abs_sub_comm, abs_of_nonneg (sub_nonneg.2 hleading)]
      _ ≤ q - (t.apply m : Int) * 2 ^ d := by gcongr
      _ ≤ |(t.apply m : Int) * 2 ^ d - q| := by
        rw [abs_sub_comm]
        exact le_abs_self _

/-- The other sign gives the negative number. -/
theorem apply_neg (t : Sign) (k : Int) : (-t).apply k = -t.apply k := by
  cases t with
  | positive => rfl
  | negative => exact (neg_neg k).symm

/-- No finite double is closer, nor its opposite. -/
theorem IsRounding.abs_sub_le_of_toRat? (h : IsRounding q n e) {y : Float} {p : Rat}
    (hy : toRat? y = some p) :
    |(n : Rat) * 2 ^ e - q| ≤ |p - q| ∧ |(n : Rat) * 2 ^ e - q| ≤ |-p - q| := by
  obtain ⟨t, -, rfl⟩ | ⟨t, m, d, hm, -, hc, rfl⟩ := unpack_cases hy
  · have hzero := h.abs_sub_le 0
    rw [Int.cast_zero, zero_mul] at hzero
    rw [neg_zero]
    exact ⟨hzero, hzero⟩
  · have hopposite : -(((t.apply m : Int) : Rat) * 2 ^ d) = ((-t).apply m : Int) * 2 ^ d := by
      rw [apply_neg, Int.cast_neg, neg_mul]
    rw [hopposite]
    exact ⟨h.abs_sub_le_of_isCanonical hc t, h.abs_sub_le_of_isCanonical hc (-t)⟩

/-! ## Packing what is rounded -/

/-- The fields of a normal number: the leading bit of the mantissa is not stored. -/
theorem unpack_packComponents_normal (s : Sign) {m : Nat} {e : Int} (hm : 0 < m)
    (hlog : m.log2 = 52) (hleast : -1074 ≤ e) (he : e ≤ 971) :
    UnpackedFloat.unpack .binary64 (packComponents .binary64 s
      (BitVec.ofNat 11 (e + 1023 + 52).toNat) (BitVec.ofNat 52 m)) = .finite s m e hm := by
  have hbiased : (BitVec.ofNat 11 (e + 1023 + 52).toNat).toNat = (e + 1023 + 52).toNat := by
    rw [BitVec.toNat_ofNat]
    exact Nat.mod_eq_of_lt (by norm_num; omega)
  -- the stored exponent is neither that of the infinities nor that of the subnormal numbers
  have hinfinite : BitVec.ofNat 11 (e + 1023 + 52).toNat ≠ -1#11 := by
    intro h
    have hmax := congrArg BitVec.toNat h
    rw [hbiased] at hmax
    change _ = 2047 at hmax
    omega
  have hzero : BitVec.ofNat 11 (e + 1023 + 52).toNat ≠ 0#11 := by
    intro h
    have hmin := congrArg BitVec.toNat h
    rw [hbiased] at hmin
    change _ = 0 at hmin
    omega
  -- the leading one is not stored, and is put back when the number is unpacked
  have hmantissa : (1#1 ++ BitVec.ofNat 52 m).toNat = m := by
    obtain ⟨hge, hlt⟩ := (Nat.log2_eq_iff hm.ne').1 hlog
    have hstored : (BitVec.ofNat 52 m).toNat < 2 ^ 52 := (BitVec.ofNat 52 m).isLt
    rw [BitVec.toNat_append, ← Nat.shiftLeft_add_eq_or_of_lt hstored, BitVec.toNat_ofNat,
      BitVec.toNat_ofNat, Nat.shiftLeft_eq]
    omega
  rw [UnpackedFloat.unpack]
  simp only [unpackMantissa_packComponents, unpackExponent_packComponents,
    unpackSign_packComponents, Sign.ofBitVec_toBitVec, hmantissa, hbiased]
  rw [if_neg hinfinite, if_neg hzero]
  congr 1
  have hbias : (Format.binary64.exponentBias : Int) = 1023 := rfl
  rw [hbias]
  omega

/-- **Canonical numbers are packed without a loss** if their exponent is not too high. -/
theorem unpack_pack_finite (s : Sign) {m : Nat} {e : Int} (hm : 0 < m)
    (hc : IsCanonical .binary64 m e) (he : e ≤ 971) :
    (Float.Model.pack (.finite s m e hm)).unpack = .finite s m e hm := by
  have hleast := hc.le_exponent
  have hlog : m.log2 < 53 := (Nat.log2_lt hm.ne').2 hc.mantissa_lt
  show UnpackedFloat.unpack .binary64 (UnpackedFloat.pack .binary64 (.finite s m e hm)) = _
  -- the exponent stays below that of the infinities
  have hrange : ¬ 2 ^ 11 ≤ (e + 1023 + 52).toNat + 1 := by
    norm_num
    omega
  have hpack : UnpackedFloat.pack .binary64 (.finite s m e hm) =
      if m.log2 + 1 = 53 then
        packComponents .binary64 s (BitVec.ofNat 11 (e + 1023 + 52).toNat) (BitVec.ofNat 52 m)
      else packComponents .binary64 s 0#11 (BitVec.ofNat 52 m) := by
    rw [UnpackedFloat.pack]
    exact if_neg hrange
  rw [hpack]
  by_cases hnormal : m.log2 = 52
  · rw [if_pos (by omega)]
    exact unpack_packComponents_normal s hm hnormal hleast he
  · -- without its leading bit a mantissa has the least exponent
    rw [isCanonical_binary64_iff] at hc
    have hmantissa : (BitVec.ofNat 52 m).toNat = m := by
      rw [BitVec.toNat_ofNat]
      exact Nat.mod_eq_of_lt ((Nat.log2_lt hm.ne').1 (by omega))
    have hzero : BitVec.ofNat 52 m ≠ 0#52 := by
      intro h
      have hnonzero := congrArg BitVec.toNat h
      rw [hmantissa] at hnonzero
      exact hm.ne' hnonzero
    rw [if_neg (by omega), UnpackedFloat.unpack]
    simp only [unpackMantissa_packComponents, unpackExponent_packComponents,
      unpackSign_packComponents, Sign.ofBitVec_toBitVec, hmantissa]
    rw [if_neg (by decide), if_pos trivial, dif_neg hzero]
    congr 1
    have hbias : (Format.binary64.exponentBias : Int) = 1023 := rfl
    rw [BitVec.toNat_zero, hbias]
    omega

/-! ## The nearest double -/

/-- **Dividing natural numbers** gives enough bits for a mantissa; they represent the quotient. -/
theorem divCore_spec {m k : Nat} (hm : 0 < m) (hk : 0 < k) :
    ∃ n d acc, divCore .binary64 m 0 k 0 = (n, d, acc) ∧
      Represents (.ofMantissaAndAccuracy n acc) ((m / k : Rat) / 2 ^ d) ∧
      d ≤ Format.binary64.targetExponent (totalExponent n d) := by
  -- the dividend is shifted by so many bits before it is divided
  obtain ⟨t, ht⟩ : ∃ t : Nat, min 0 (max ((m.log2 : Int) - k.log2 - 53) (-1074)) = -t :=
    ⟨(-min 0 (max ((m.log2 : Int) - k.log2 - 53) (-1074))).toNat, by omega⟩
  have hcore : divCore .binary64 m 0 k 0 =
      (m * 2 ^ t / k, -(t : Int), accuracyOfFraction (m * 2 ^ t % k) k) := by
    have htarget :
        min (0 - 0) (Format.binary64.targetExponent (totalExponent m 0 - totalExponent k 0)) =
          -(t : Int) := by
      rw [targetExponent_binary64, totalExponent, totalExponent]
      omega
    have hshift : (0 - 0 - -(t : Int)).toNat = t := by omega
    rw [divCore, htarget, hshift, Nat.shiftLeft_eq]
  refine ⟨_, _, _, hcore, ?_, ?_⟩
  · have hquotient : (m / k : Rat) / 2 ^ (-(t : Int)) = (m * 2 ^ t : Nat) / k := by
      rw [zpow_neg, zpow_natCast, div_inv_eq_mul]
      push_cast
      ring
    rw [hquotient]
    exact represents_quotient _ hk
  · rw [targetExponent_binary64, totalExponent]
    rcases le_or_gt 1074 t with hleast | hleast
    · omega
    · -- the exponent is low enough for a quotient with a leading bit
      have hbits : 2 ^ 52 ≤ m * 2 ^ t / k := by
        rw [Nat.le_div_iff_mul_le hk]
        calc 2 ^ 52 * k
          _ ≤ 2 ^ 52 * 2 ^ (k.log2 + 1) := Nat.mul_le_mul_left _ Nat.lt_log2_self.le
          _ = 2 ^ (52 + (k.log2 + 1)) := (pow_add ..).symm
          _ ≤ 2 ^ (m.log2 + t) := Nat.pow_le_pow_right two_pos (by omega)
          _ = 2 ^ m.log2 * 2 ^ t := pow_add ..
          _ ≤ m * 2 ^ t := Nat.mul_le_mul_right _ (Nat.log2_self_le hm.ne')
      have hlog : 52 ≤ (m * 2 ^ t / k).log2 := (Nat.le_log2 (by omega)).2 hbits
      omega

/-- A rounding of a number that is not too large has an exponent that is not too high. -/
theorem IsRounding.exponent_lt (h : IsRounding q n e) (hq : q < 2 ^ 1023) : e < 971 := by
  by_contra hge
  have hscale : (0 : Rat) < 2 ^ e := by positivity
  have hleading : (2 : Rat) ^ 52 * 2 ^ e ≤ q :=
    (le_div_iff₀ hscale).1 (h.leading.resolve_left (by omega))
  have hlarge : (2 : Rat) ^ 1023 ≤ 2 ^ 52 * 2 ^ e := by
    rw [← zpow_natCast, ← zpow_natCast, ← zpow_add₀ two_ne_zero]
    exact zpow_le_zpow_right₀ one_le_two (by omega)
  exact absurd (hlarge.trans hleading) (not_le.2 hq)

/-- The nearest double to a quotient of natural numbers, with a sign. -/
theorem toRat?_pack_div (s : Sign) {m k : Nat} (hm : 0 < m) (hk : 0 < k)
    (hlt : (m / k : Rat) < 2 ^ 1023) :
    ∃ n d, IsRounding (m / k : Rat) n d ∧
      toRat? (.ofModel (Float.Model.pack (UnpackedFloat.div .binary64 (.finite s m 0 hm)
        (.finite .positive k 0 hk)))) = some (s.apply n * (2 : Rat) ^ d) := by
  obtain ⟨n, d, acc, hcore, hrep, hd⟩ := divCore_spec hm hk
  have hdiv : UnpackedFloat.div .binary64 (.finite s m 0 hm) (.finite .positive k 0 hk) =
      roundWithAccuracy .binary64 s n d acc := by
    have hsign : s / .positive = s := by cases s <;> rfl
    rw [UnpackedFloat.div, hcore, hsign]
  -- the quotient is rounded to zero, or to a mantissa that can be stored
  obtain ⟨n', d', hrounding, ⟨rfl, hzero⟩ | ⟨n'', d'', hpos, hfinite, hc, hle, hvalue⟩⟩ :=
    roundWithAccuracy_eq s hrep hd
  · refine ⟨0, d', hrounding, ?_⟩
    have hpack : toRat? (.ofModel (Float.Model.pack (.zero s))) = some 0 :=
      toRat?_of_zero (unpack_pack_zero s)
    rw [hdiv, hzero, hpack]
    cases s <;> simp [Sign.apply]
  · have hexponent := hrounding.exponent_lt hlt
    have hpack : toRat? (.ofModel (Float.Model.pack (.finite s n'' d'' hpos))) =
        some ((s.apply n'' : Int) * (2 : Rat) ^ d'') :=
      toRat?_of_finite (unpack_pack_finite s hpos hc (by omega))
    refine ⟨n', d', hrounding, ?_⟩
    rw [hdiv, hfinite, hpack]
    cases s with
    | positive => rw [cast_apply_positive, cast_apply_positive, hvalue]
    | negative => rw [cast_apply_negative, cast_apply_negative, neg_mul, neg_mul, hvalue]

/-- **The nearest double** to a number that is not too large is finite, and no finite double is
closer. -/
theorem exists_toRat?_nearest {q : Rat} (hq : |q| < 2 ^ 1023) :
    ∃ v, toRat? (nearest q) = some v ∧ ∀ y p, toRat? y = some p → |v - q| ≤ |p - q| := by
  rcases Nat.eq_zero_or_pos q.num.natAbs with h0 | hpos
  · obtain rfl : q = 0 := Rat.num_eq_zero.1 (Int.natAbs_eq_zero.1 h0)
    exact ⟨0, rfl, fun y p _ => by simp⟩
  · -- the magnitude is divided, and a negative sign turns all distances over
    have habs := abs_eq_natAbs_div q
    rw [nearest, dif_pos hpos]
    rcases lt_or_ge q 0 with hneg | hnonneg
    · obtain ⟨n, d, hrounding, hvalue⟩ :=
        toRat?_pack_div .negative hpos q.den_pos (habs ▸ hq)
      rw [← habs, abs_of_neg hneg] at hrounding
      refine ⟨_, by rw [if_pos hneg]; exact hvalue, fun y p hy => ?_⟩
      have hopposite (v : Rat) : |v - q| = |-v - -q| := by rw [neg_sub_neg, abs_sub_comm]
      rw [hopposite, hopposite p, cast_apply_negative, neg_mul, neg_neg]
      exact (hrounding.abs_sub_le_of_toRat? hy).2
    · obtain ⟨n, d, hrounding, hvalue⟩ :=
        toRat?_pack_div .positive hpos q.den_pos (habs ▸ hq)
      rw [← habs, abs_of_nonneg hnonneg] at hrounding
      refine ⟨_, by rw [if_neg hnonneg.not_gt]; exact hvalue, fun y p hy => ?_⟩
      rw [cast_apply_positive]
      exact (hrounding.abs_sub_le_of_toRat? hy).1

/-- The nearest double keeps to the side of a finite double on which the number is. -/
theorem exists_toRat?_nearest_bounds {q : Rat} (hq : |q| < 2 ^ 1023) :
    ∃ v, toRat? (nearest q) = some v ∧
      ∀ y p, toRat? y = some p → (q ≤ p → v ≤ p) ∧ (p ≤ q → p ≤ v) := by
  obtain ⟨v, hv, hnear⟩ := exists_toRat?_nearest hq
  refine ⟨v, hv, fun y p hy => ⟨fun hle => ?_, fun hle => ?_⟩⟩
  · have hclose := hnear y p hy
    rw [abs_of_nonneg (sub_nonneg.2 hle)] at hclose
    linarith only [hclose, le_abs_self (v - q)]
  · have hclose := hnear y p hy
    rw [abs_of_nonpos (sub_nonpos.2 hle)] at hclose
    linarith only [hclose, neg_abs_le (v - q)]

end Keypad.Double
