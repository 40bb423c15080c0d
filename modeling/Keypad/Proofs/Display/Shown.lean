import Keypad.Display
import Keypad.Proofs.Double.Classes
import Mathlib.Algebra.Order.Field.Rat

/-! # What a part of a value is shown as

A part that is shown as a number stands for the number that its digits and its exponent spell. Every
finite part is shown as a number; one that is infinite or not a number never is. -/

namespace Keypad.Display

/-- The number that a magnitude is **shown as**, if it is shown as one. -/
def Magnitude.value? : Magnitude → Option Rat
  | .infinite => none
  | .fixed d => some d.value
  | .scientific d e => some (d.value * 10 ^ e)

/-- The number that a part is **shown as**, if it is shown as one. -/
def Part.value? : Part → Option Rat
  | .notANumber => none
  | .nothing => some 0
  | .shown negative m => m.value?.map fun q => if negative then -q else q

/-- In scientific notation a magnitude is shown as a number. -/
theorem exists_value?_scientific (o : Options) (q : Rat) : ∃ r, (scientific o q).value? = some r := by
  rw [scientific]
  exact ⟨_, rfl⟩

/-- With any number of places a magnitude is shown as a number. -/
theorem exists_value?_rounded (o : Options) (q : Rat) (n : Nat) :
    ∃ r, (rounded o q n).value? = some r := by
  rw [rounded]
  cases fixed? o n q with
  | some d => exact ⟨d.value, rfl⟩
  | none => exact exists_value?_scientific o q

section

variable {o : Options} {log10 : Float → Float} {x : Float} {q : Rat}

/-- A result that is mapped comes from a result. -/
theorem map_eq_ok_iff {ε α β : Type} {result : Except ε α} {f : α → β} {b : β} :
    result.map f = .ok b ↔ ∃ a, result = .ok a ∧ f a = b := by
  cases result <;> simp [Except.map]

/-- **When a magnitude can be shown**: in the range for fixed notation with the places that are
counted, and everywhere else in scientific notation. -/
theorem magnitude_eq_ok_iff {m : Magnitude} :
    magnitude o log10 x q = .ok m ↔
      (o.fixedMin ≤ x ∧ x < o.fixedMax) ∧ (∃ n, places o (log10 x) = .ok n ∧ rounded o q n = m) ∨
      ¬ (o.fixedMin ≤ x ∧ x < o.fixedMax) ∧ scientific o q = m := by
  rw [magnitude]
  by_cases hrange : o.fixedMin ≤ x ∧ x < o.fixedMax
  · rw [if_pos (by simp [hrange]), map_eq_ok_iff]
    simp [hrange]
  · rw [if_neg (by simpa using hrange)]
    simp [hrange]

/-- **When a magnitude cannot be shown**: it is in the range for fixed notation, and the count of its
places overflows. -/
theorem magnitude_eq_error_iff {e : Overflow} :
    magnitude o log10 x q = .error e ↔
      (o.fixedMin ≤ x ∧ x < o.fixedMax) ∧ places o (log10 x) = .error e := by
  rw [magnitude]
  by_cases hrange : o.fixedMin ≤ x ∧ x < o.fixedMax
  · rw [if_pos (by simp [hrange])]
    cases places o (log10 x) <;> simp [Except.map, hrange]
  · rw [if_neg (by simpa using hrange)]
    simp [hrange]

/-- A magnitude with an exact value is shown as a number. -/
theorem exists_value?_magnitude {m : Magnitude} (h : magnitude o log10 x q = .ok m) :
    ∃ r, m.value? = some r := by
  obtain ⟨-, n, -, rfl⟩ | ⟨-, rfl⟩ := magnitude_eq_ok_iff.1 h
  · exact exists_value?_rounded o q n
  · exact exists_value?_scientific o q

/-- **Finite parts are shown as numbers.** -/
theorem exists_value?_classify {part : Part} (hx : x.isFinite = true)
    (h : classify o log10 x = .ok part) : ∃ r, part.value? = some r := by
  obtain ⟨q, hq⟩ := Double.exists_toRat?_abs hx
  rw [classify, Double.isNaN_of_isFinite hx, if_neg Bool.false_ne_true, hq] at h
  split at h
  · obtain rfl := Except.ok.inj h
    exact ⟨0, rfl⟩
  · obtain ⟨m, hm, rfl⟩ := map_eq_ok_iff.1 h
    obtain ⟨r, hr⟩ := exists_value?_magnitude hm
    refine ⟨if decide (x < 0) = true then -r else r, ?_⟩
    rw [Part.value?, hr, Option.map_some]

/-- **Infinite and undefined parts are not shown as numbers.** -/
theorem value?_eq_none_of_classify {part : Part} (hx : x.isFinite = false)
    (h : classify o log10 x = .ok part) : part.value? = none := by
  rw [classify] at h
  -- an infinite part is below no threshold, so it is not shown as nothing
  by_cases hnan : x.isNaN = true
  · rw [if_pos hnan] at h
    obtain rfl := Except.ok.inj h
    rfl
  · have hinf := Double.unpack_abs_of_not_isFinite hx (Bool.eq_false_iff.2 hnan)
    rw [if_neg hnan, if_neg (Double.not_lt_of_infinity hinf _), Double.toRat?_of_infinity hinf] at h
    obtain rfl := Except.ok.inj h
    rfl

end

end Keypad.Display
