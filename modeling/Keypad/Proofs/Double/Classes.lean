import Keypad.Double.Exact
import Mathlib

/-! # Magnitudes of doubles

The magnitude of a double is packed into bits and unpacked again, which loses nothing: all fields but
the sign are kept. So the magnitude of a finite double has an exact value, and that of an infinite
one has none and is below no other double. -/

namespace Keypad.Double

open Float.Model UnpackedFloat

/-! ## Packing and unpacking -/

section Packing

variable {spec : Format}

/-- Some bits, but with a positive sign. -/
def positive (b : BitVec spec.numBits) : BitVec spec.numBits :=
  packComponents spec .positive (unpackExponent b) (unpackMantissa b)

/-- The magnitude of unpacked bits is what they are unpacked to with a positive sign. -/
theorem abs_unpack (b : BitVec spec.numBits) :
    (UnpackedFloat.unpack spec b).abs = UnpackedFloat.unpack spec (positive b) := by
  have hsign : Sign.ofBitVec (unpackSign (positive b)) = .positive := by
    rw [positive, unpackSign_packComponents, Sign.ofBitVec_toBitVec]
  have hexponent : unpackExponent (positive b) = unpackExponent b :=
    unpackExponent_packComponents
  have hmantissa : unpackMantissa (positive b) = unpackMantissa b :=
    unpackMantissa_packComponents
  unfold UnpackedFloat.unpack
  simp only [hsign, hexponent, hmantissa]
  -- unpacking goes by exponent and mantissa, and these are not changed
  by_cases he : unpackExponent b = -1#_
  · rw [if_pos he, if_pos he]
    by_cases hm : unpackMantissa b = 0#_
    · rw [if_pos hm, if_pos hm]
      rfl
    · rw [if_neg hm, if_neg hm]
      rfl
  · rw [if_neg he, if_neg he]
    by_cases he0 : unpackExponent b = 0#_
    · rw [if_pos he0, if_pos he0]
      by_cases hm : unpackMantissa b = 0#_
      · rw [dif_pos hm, dif_pos hm]
        rfl
      · rw [dif_neg hm, dif_neg hm]
        rfl
    · rw [if_neg he0, if_neg he0]
      rfl

/-- Bits of an undefined number are unpacked to it. -/
theorem unpack_of_isNaNBits {b : BitVec spec.numBits} (h : isNaNBits b = true) :
    UnpackedFloat.unpack spec b = .notANumber := by
  obtain ⟨he, hm⟩ := of_decide_eq_true h
  unfold UnpackedFloat.unpack
  rw [if_pos he, if_neg hm]

/-- Packing what bits are unpacked to changes nothing that unpacking sees. -/
theorem unpack_pack_unpack (hspec : 2 ≤ spec.exponentBits) (b : BitVec spec.numBits) :
    UnpackedFloat.unpack spec (UnpackedFloat.pack spec (UnpackedFloat.unpack spec b)) =
      UnpackedFloat.unpack spec b := by
  rw [pack_unpack b hspec]
  by_cases hnan : isNaNBits b = true
  · -- all bits of undefined numbers are packed alike
    rw [if_pos hnan, unpack_packedNaN, unpack_of_isNaNBits hnan]
  · rw [if_neg hnan]

end Packing

/-- **Magnitudes** survive packing. -/
theorem unpack_abs (x : Float) : x.abs.toModel.unpack = x.toModel.unpack.abs := by
  have habs : x.toModel.unpack.abs =
      UnpackedFloat.unpack .binary64 (positive x.toModel.toBits.toBitVec) := abs_unpack _
  rw [habs, ← unpack_pack_unpack (by decide), ← habs]
  rfl

/-! ## The class of a double -/

/-- The magnitude of a finite double has an exact value. -/
theorem exists_toRat?_abs {x : Float} (h : x.isFinite = true) : ∃ q, toRat? x.abs = some q := by
  have hx : x.toModel.unpack.isFinite = true := h
  unfold toRat?
  rw [unpack_abs]
  cases hu : x.toModel.unpack with
  | infinity s =>
    rw [hu] at hx
    cases hx
  | notANumber =>
    rw [hu] at hx
    cases hx
  | zero s => exact ⟨_, rfl⟩
  | finite s m e hm => exact ⟨_, rfl⟩

/-- A finite double is a number. -/
theorem isNaN_of_isFinite {x : Float} (h : x.isFinite = true) : x.isNaN = false := by
  have hx : x.toModel.unpack.isFinite = true := h
  show x.toModel.unpack.isNaN = false
  cases hu : x.toModel.unpack with
  | notANumber =>
    rw [hu] at hx
    cases hx
  | _ => rfl

/-- A double that is neither finite nor undefined has an infinite magnitude. -/
theorem unpack_abs_of_not_isFinite {x : Float} (h : x.isFinite = false) (hn : x.isNaN = false) :
    x.abs.toModel.unpack = .infinity .positive := by
  have hx : x.toModel.unpack.isFinite = false := h
  have hxn : x.toModel.unpack.isNaN = false := hn
  rw [unpack_abs]
  cases hu : x.toModel.unpack with
  | infinity s => rfl
  | notANumber =>
    rw [hu] at hxn
    cases hxn
  | zero s =>
    rw [hu] at hx
    cases hx
  | finite s m e hm =>
    rw [hu] at hx
    cases hx

/-- An infinite magnitude has no exact value. -/
theorem toRat?_of_infinity {x : Float} (h : x.toModel.unpack = .infinity .positive) :
    toRat? x = none := by
  unfold toRat?
  rw [h]

/-- Nothing is above an infinite magnitude. -/
theorem not_lt_of_infinity {x : Float} (h : x.toModel.unpack = .infinity .positive) (y : Float) :
    ¬ x < y := by
  intro hlt
  have hmodel : x.toModel < y.toModel := of_decide_eq_true hlt
  have hcompare : x.toModel.unpack.compare y.toModel.unpack = some .lt := eq_of_beq hmodel
  rw [h] at hcompare
  generalize y.toModel.unpack = u at hcompare
  match u with
  | .infinity .positive => cases hcompare
  | .infinity .negative => cases hcompare
  | .notANumber => cases hcompare
  | .zero _ => cases hcompare
  | .finite .. => cases hcompare

end Keypad.Double
