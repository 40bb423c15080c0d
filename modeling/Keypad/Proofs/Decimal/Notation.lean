import Keypad.Proofs.Expr.Strictness
import Mathlib.Algebra.BigOperators.Field
import Mathlib.Data.List.GetD
import Mathlib.Data.List.TakeWhile

/-! # Decimal notation

The number that a numeral denotes is the sum of its digits, each times the power of ten of its
**place**. A numeral is read by two loops instead, one over the digits before the point from the
first one on, and one over those after it from the last one back. Where nothing is rounded the loops
give the number denoted, wherever the point stands. What is no decimal number is refused: first for
its points, and then for its digits. -/

namespace Keypad

namespace Numeral

/-! ## Places -/

/-- The **place** of a position: the power of ten that counts there. Places fall by one from each
digit to the next, and the last digit before the point has place zero. -/
def place (n : Numeral) (i : Nat) : Int :=
  if i < n.idxOf none then n.idxOf none - 1 - i else n.idxOf none - i

/-- The number that a numeral **denotes** in decimal notation; the point itself counts nothing. -/
def denoted (n : Numeral) : Rat :=
  ∑ i ∈ Finset.range n.length, ((n.getD i none).getD 0 : Nat) * (10 : Rat) ^ n.place i

/-! ## The digits before and after the point -/

/-- Keys without a point are digits. -/
theorem eq_map_some {n : Numeral} (h : none ∉ n) : n = (n.filterMap id).map some := by
  induction n with
  | nil => rfl
  | cons k n ih =>
    cases k with
    | none => exact absurd List.mem_cons_self h
    | some d => exact congrArg (some d :: ·) (ih fun hn => h (List.mem_cons_of_mem _ hn))

/-- With one point at most, a numeral is its digits, or its digits with a point between them. -/
theorem eq_of_points_le_one {n : Numeral} (h : n.points ≤ 1) :
    (n = n.whole.map some ∧ n.fraction = []) ∨
      n = n.whole.map some ++ none :: n.fraction.map some := by
  -- what is in front of the first point has digits only
  have hfront : none ∉ n.takeWhile Option.isSome := by
    intro hn
    cases List.mem_takeWhile_imp hn
  have hsplit := List.takeWhile_append_dropWhile (p := Option.isSome) (l := n)
  rw [eq_map_some hfront] at hsplit
  cases hback : n.dropWhile Option.isSome with
  | nil =>
    rw [hback, List.append_nil] at hsplit
    exact .inl ⟨hsplit.symm, by rw [fraction, hback, List.filterMap_nil]⟩
  | cons k rest =>
    -- digits stop at a point, and behind it there is no other
    have hk : k = none := by
      have hhead := List.head_dropWhile_not Option.isSome (hback ▸ List.cons_ne_nil k rest)
      simpa [hback] using hhead
    subst hk
    have hrest : none ∉ rest := by
      rw [← List.count_eq_zero]
      rw [points, ← List.takeWhile_append_dropWhile (p := Option.isSome) (l := n), hback,
        List.count_append, List.count_cons_self] at h
      omega
    refine .inr ?_
    conv_lhs => rw [← hsplit, hback, eq_map_some hrest]
    rw [fraction, hback]
    rfl

end Numeral

/-! ## The loops -/

/-- The loop over the digits before the point counts the **last one once**, and each other one ten
times as much as the next. -/
theorem wholeValue_eq_sum (ds : List Nat) :
    (wholeValue ds : Rat) = ∑ i ∈ Finset.range ds.length,
      (ds.getD i 0 : Nat) * (10 : Rat) ^ ((ds.length : Int) - 1 - i) := by
  -- from the back: a further digit moves all others up by one place
  induction ds using List.reverseRecOn with
  | nil => simp [wholeValue]
  | append_singleton ds d ih =>
    have hstep : (wholeValue (ds ++ [d]) : Rat) = wholeValue ds * 10 + d := by
      simp [wholeValue]
    rw [hstep, ih, List.length_append, List.length_singleton, Finset.sum_range_succ, Finset.sum_mul]
    refine congrArg₂ (· + ·) (Finset.sum_congr rfl fun i hi => ?_) ?_
    · have hlt := Finset.mem_range.1 hi
      have hplace : ((ds.length + 1 : Nat) : Int) - 1 - i = (ds.length : Int) - 1 - i + 1 := by
        push_cast
        ring
      rw [List.getD_append _ _ _ _ hlt, hplace, zpow_add_one₀ (by norm_num), mul_assoc]
    · have hplace : ((ds.length + 1 : Nat) : Int) - 1 - ds.length = 0 := by
        push_cast
        ring
      rw [hplace, List.getD_append_right _ _ _ _ le_rfl]
      simp

/-- The loop over the digits after the point counts the **first one as a tenth**, and each other one
a tenth as much as that before it. -/
theorem fractionValue_eq_sum (ds : List Nat) :
    (fractionValue ds : Rat) = ∑ i ∈ Finset.range ds.length,
      (ds.getD i 0 : Nat) * (10 : Rat) ^ (-1 - (i : Int)) := by
  induction ds with
  | nil => simp [fractionValue]
  | cons d ds ih =>
    have hstep : (fractionValue (d :: ds) : Rat) = (fractionValue ds + d) / 10 := rfl
    rw [hstep, ih, List.length_cons, Finset.sum_range_succ', add_div, Finset.sum_div]
    refine congrArg₂ (· + ·) (Finset.sum_congr rfl fun i _ => ?_) ?_
    · have hplace : (-1 - ((i + 1 : Nat) : Int)) = -1 - i - 1 := by
        push_cast
        ring
      rw [List.getD_cons_succ, hplace, zpow_sub_one₀ (by norm_num), mul_div_assoc, div_eq_mul_inv]
    · simp [div_eq_mul_inv]

/-! ## What the loops compute -/

namespace Numeral

/-- A place within a row of digits holds one of them. -/
theorem getD_map_some {ds : List Nat} {i : Nat} (h : i < ds.length) :
    (ds.map some).getD i none = some (ds.getD i 0) := by
  simp [h]

/-- A row of digits has no point. -/
theorem none_notMem_map_some (ds : List Nat) : none ∉ ds.map some := by
  simp

/-- Without a point the digits denote a whole number. -/
theorem denoted_map_some (ds : List Nat) : denoted (ds.map some) = wholeValue ds := by
  rw [denoted, wholeValue_eq_sum, List.length_map]
  refine Finset.sum_congr rfl fun i hi => ?_
  have hlt := Finset.mem_range.1 hi
  rw [getD_map_some hlt, Option.getD_some, place, List.idxOf_of_notMem (none_notMem_map_some ds),
    List.length_map, if_pos hlt]

/-- What stands before the point and what stands after it are denoted apart and added. -/
theorem denoted_append_point (ws fs : List Nat) :
    denoted (ws.map some ++ none :: fs.map some) = wholeValue ws + fractionValue fs := by
  have hpoint : (ws.map some ++ none :: fs.map some).idxOf none = ws.length := by
    rw [List.idxOf_append_of_notMem (none_notMem_map_some ws), List.idxOf_cons_self,
      List.length_map, Nat.add_zero]
  -- the sum falls apart into what is before the point, the point and what is behind it
  rw [denoted, wholeValue_eq_sum, fractionValue_eq_sum, List.length_append, List.length_cons,
    List.length_map, List.length_map, Finset.sum_range_add, Finset.sum_range_succ']
  -- the point itself counts nothing
  have hzero : ((ws.map some ++ none :: fs.map some).getD (ws.length + 0) none).getD 0 = 0 := by
    simp
  rw [hzero, Nat.cast_zero, zero_mul, add_zero]
  refine congrArg₂ (· + ·) (Finset.sum_congr rfl fun i hi => ?_)
    (Finset.sum_congr rfl fun i hi => ?_)
  · have hlt := Finset.mem_range.1 hi
    have hmap : i < (ws.map some).length := by rwa [List.length_map]
    rw [List.getD_append _ _ _ _ hmap, getD_map_some hlt, Option.getD_some, place, hpoint,
      if_pos hlt]
  · -- behind the point positions are one more than the digits before them
    have hlt := Finset.mem_range.1 hi
    have hle : (ws.map some).length ≤ ws.length + (i + 1) := by
      rw [List.length_map]
      omega
    have hindex : ws.length + (i + 1) - (ws.map some).length = i + 1 := by
      rw [List.length_map]
      omega
    have hplace : (ws.length : Int) - (ws.length + (i + 1) : Nat) = -1 - i := by
      push_cast
      ring
    rw [List.getD_append_right _ _ _ _ hle, hindex, List.getD_cons_succ, getD_map_some hlt,
      Option.getD_some, place, hpoint, if_neg (by omega), hplace]

/-- **The loops give the number denoted.** -/
theorem decimalValue_eq_denoted {n : Numeral} (h : n.points ≤ 1) :
    (decimalValue n.whole n.fraction : Rat) = n.denoted := by
  rcases eq_of_points_le_one h with ⟨hn, hfraction⟩ | hn
  · conv_rhs => rw [hn]
    rw [denoted_map_some, decimalValue, hfraction]
    exact add_zero _
  · conv_rhs => rw [hn]
    rw [denoted_append_point, decimalValue]

end Numeral

/-! ## Evaluating numerals -/

namespace Expr

/-- **Reading a number is exact up to rounding.** Decimal digits with one point at most, wherever it
stands, are read by two loops on doubles, which give the number denoted where they are carried out
on exact numbers; a part that is missing counts as zero. Two points are refused as such, whatever
the digits are, and the error quotes all keys. With fewer points a numeral is refused exactly if one
of its digits is above nine. -/
theorem eval_number_denoted (n : Numeral) :
    ((∀ d, some d ∈ n → d ≤ 9) → n.points ≤ 1 →
      (number n).eval = .ok (⟨decimalValue n.whole n.fraction, 0⟩ : Value) ∧
        (decimalValue n.whole n.fraction : Rat) = n.denoted) ∧
      (2 ≤ n.points → (number n : Expr Value).eval = .error (.numeral (.tooManyPoints n)) ∧
        (NumeralError.tooManyPoints n).message = "Too many '.' in a number: " ++ n.text) ∧
      (n.points ≤ 1 →
        ((∃ err, (number n : Expr Value).eval = .error err) ↔ ∃ d, some d ∈ n ∧ 9 < d)) := by
  refine ⟨fun hdigits hpoints => ⟨?_, Numeral.decimalValue_eq_denoted hpoints⟩,
    fun hpoints => ⟨?_, rfl⟩, fun hpoints => ?_⟩
  · -- digits and at most one point can be read
    rw [eval, Numeral.value, Numeral.read_of_isDecimal hdigits hpoints]
    rfl
  · -- a second point is refused before the digits are looked at
    have hread : n.read = .error (.tooManyPoints n) := if_pos hpoints
    rw [eval, Numeral.value, hread]
    rfl
  · -- with no second point only a digit can be refused
    have hmalformed : n.IsMalformed ↔ ∃ d, some d ∈ n ∧ 9 < d :=
      or_iff_right (Nat.not_lt.2 hpoints)
    rw [← hmalformed, ← exists_value_eq_error_iff (V := Value), eval]
    simp only [mapError_eq_error_iff]
    constructor
    · rintro ⟨_, e, he, -⟩
      exact ⟨e, he⟩
    · rintro ⟨e, he⟩
      exact ⟨_, e, he, rfl⟩

/-- `12.5` denotes twenty-five halves; `.(12).` has two points, and `.(10)` a digit above nine. -/
theorem eval_number_denoted_twelve_and_a_half :
    ((number [some 1, some 2, none, some 5]).eval = .ok (⟨decimalValue [1, 2] [5], 0⟩ : Value) ∧
      (decimalValue [1, 2] [5] : Rat) = 25 / 2) ∧
      (number [none, some 12, none] : Expr Value).eval =
        .error (.numeral (.tooManyPoints [none, some 12, none])) ∧
      ∃ err, (number [none, some 10] : Expr Value).eval = .error err := by
  have hdenoted : Numeral.denoted [some 1, some 2, none, some 5] = 25 / 2 := by
    have hplaces : Numeral.place [some 1, some 2, none, some 5] 0 = 1 ∧
        Numeral.place [some 1, some 2, none, some 5] 1 = 0 ∧
        Numeral.place [some 1, some 2, none, some 5] 3 = -1 := by decide
    norm_num [Numeral.denoted, Finset.sum_range_succ, hplaces]
  obtain ⟨heval, hvalue⟩ :=
    (eval_number_denoted [some 1, some 2, none, some 5]).1 (by simp) (by decide)
  obtain ⟨hpoints, -⟩ := (eval_number_denoted [none, some 12, none]).2.1 (by decide)
  have hdigit := (eval_number_denoted [none, some 10]).2.2 (by decide)
  exact ⟨⟨heval, hvalue.trans hdenoted⟩, hpoints, hdigit.2 ⟨10, by simp⟩⟩

end Expr

end Keypad
