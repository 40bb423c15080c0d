import Keypad.Proofs.Expr.DescriptionLevels

/-! # What the nesting limit has room for

The levels that some keys can cost are counted on the keys alone: three for each closing bracket and
one for each operator, and two more for the tiers of the whole. Where the limit has room for these,
nesting is not exceeded, whether the keys are an expression or not. No smaller count would do: a sum
opens a level for each of its terms and a pair of brackets three, so sums and brackets are parsed
exactly as far as the count allows. -/

namespace Keypad.Grammar

variable {V : Type}

/-! ## Counting keys -/

/-- The levels that some keys can cost are those of their closing brackets and operators. -/
theorem weight_eq_countP (keys : List (Key V)) :
    weight keys =
      3 * keys.countP (fun k => k.closing?.isSome) + keys.countP fun k => k.operator?.isSome := by
  induction keys with
  | nil => rfl
  | cons k keys ih =>
    rw [weight_cons, ih, List.countP_cons, List.countP_cons]
    cases k <;> simp [Key.weight, Key.closing?, Key.operator?] <;> omega

/-- The keys of a phrase are parsed exactly if the limit leaves room for its levels. -/
theorem exists_ofKeys_iff_levels (δ : Phrase V .low) :
    (∃ e, Expr.ofKeys δ.keys = .ok e) ↔ δ.levels ≤ maxNesting := by
  constructor
  · rintro ⟨e, h⟩
    obtain ⟨δ', hkeys, -, hle⟩ := ofKeys_eq_ok_iff_levels.1 h
    rwa [← Phrase.keys_injective hkeys]
  · exact fun hle => ⟨δ.tree, ofKeys_of_levels_le hle⟩

/-! ## Sums -/

/-- A phrase with a digit added to it. -/
def Phrase.plusDigit (δ : Phrase V .low) (d : Nat) : Phrase V .low :=
  δ.plus ((Factor.numeral [some d] (List.cons_ne_nil _ _)).operand .low)

/-- Adding a digit types a plus and that digit. -/
theorem Phrase.keys_plusDigit (δ : Phrase V .low) (d : Nat) :
    (δ.plusDigit d).keys = δ.keys ++ [.operator .plus, .digit d] := rfl

/-- Adding a digit makes the phrase before it a left operand, one level deeper. -/
theorem Phrase.levels_plusDigit (δ : Phrase V .low) (d : Nat) :
    (δ.plusDigit d).levels = max 2 (δ.levels + 1) := rfl

/-- The keys of a sum of digits. -/
def sumKeys (d : Nat) (ds : List Nat) : List (Key V) :=
  .digit d :: ds.flatMap fun d => [.operator .plus, .digit d]

/-- Adding several digits types them one after the other. -/
theorem Phrase.keys_foldl_plusDigit (δ : Phrase V .low) (ds : List Nat) :
    (ds.foldl plusDigit δ).keys = δ.keys ++ ds.flatMap fun d => [.operator .plus, .digit d] := by
  induction ds generalizing δ with
  | nil => exact (List.append_nil _).symm
  | cons d ds ih =>
    rw [List.foldl_cons, ih, keys_plusDigit, List.flatMap_cons, List.append_assoc]

/-- Each digit added opens a level, as soon as there is one. -/
theorem Phrase.levels_foldl_plusDigit (δ : Phrase V .low) (hδ : 1 ≤ δ.levels) (ds : List Nat) :
    (ds.foldl plusDigit δ).levels = δ.levels + ds.length := by
  induction ds generalizing δ with
  | nil => rfl
  | cons d ds ih =>
    have hstep : (δ.plusDigit d).levels = δ.levels + 1 := by
      rw [levels_plusDigit]
      omega
    rw [List.foldl_cons, ih _ (by omega), hstep, List.length_cons]
    omega

/-- A digit is inside a phrase of each tighter tier. -/
theorem levels_digit (d : Nat) : (Phrase.digit V d).levels = 2 := rfl

/-- A sum of digits is parsed exactly if it has no more than 255 terms. -/
theorem exists_ofKeys_sumKeys_iff (d : Nat) (ds : List Nat) :
    (∃ e, Expr.ofKeys (sumKeys d ds : List (Key V)) = .ok e) ↔ (d :: ds).length ≤ 255 := by
  have hkeys : (ds.foldl Phrase.plusDigit (Phrase.digit V d)).keys = sumKeys d ds :=
    Phrase.keys_foldl_plusDigit _ ds
  have hlevels := Phrase.levels_foldl_plusDigit (Phrase.digit V d) (by rw [levels_digit]; omega) ds
  rw [← hkeys, exists_ofKeys_iff_levels, hlevels, levels_digit, List.length_cons, maxNesting]
  omega

/-! ## Brackets -/

/-- A digit in brackets is parsed exactly if there are no more than 84 pairs. -/
theorem exists_ofKeys_brackets_iff (d k : Nat) :
    (∃ e : Expr V, Expr.ofKeys
      (List.replicate k .opening ++ .digit d :: List.replicate k .closing) = .ok e) ↔ k ≤ 84 := by
  have hkeys : ((Phrase.digit V d).inBrackets k).keys =
      List.replicate k .opening ++ .digit d :: List.replicate k .closing :=
    Phrase.keys_inBrackets _ k
  rw [← hkeys, exists_ofKeys_iff_levels, Phrase.levels_inBrackets, levels_digit, maxNesting]
  omega

/-! ## The budget -/

/-- **The nesting budget.** Keys whose closing brackets, three levels each, and operators, one level
each, come to no more than 254 levels never exceed the nesting limit, whether they are an expression
or not. The bound is sharp: sums of digits are parsed up to 255 terms, and digits in brackets up to
84 pairs, and no further. -/
theorem nesting_budget (V : Type) :
    (∀ keys : List (Key V),
      3 * keys.countP (fun k => k.closing?.isSome) + keys.countP (fun k => k.operator?.isSome) ≤ 254 →
        ∀ err, parse keys = .error err → err.kind ≠ .tooDeep) ∧
    (∀ (d : Nat) (ds : List Nat),
      (∃ e, Expr.ofKeys (sumKeys d ds : List (Key V)) = .ok e) ↔ (d :: ds).length ≤ 255) ∧
    ∀ d k : Nat,
      (∃ e : Expr V, Expr.ofKeys
        (List.replicate k .opening ++ .digit d :: List.replicate k .closing) = .ok e) ↔ k ≤ 84 := by
  refine ⟨fun keys hcount err herr => ?_, exists_ofKeys_sumKeys_iff, exists_ofKeys_brackets_iff⟩
  rw [← weight_eq_countP] at hcount
  exact parse_not_tooDeep (by rw [maxNesting]; omega) herr

/-- Operators behind closing brackets that were never opened are no expression; with 84 brackets and
two operators they are refused, but not for their nesting. -/
theorem nesting_budget_closing_brackets :
    let keys : List (Key Nat) := List.replicate 84 .closing ++ [.operator .times, .operator .times]
    3 * keys.countP (fun k => k.closing?.isSome) + keys.countP (fun k => k.operator?.isSome) ≤ 254 ∧
      ∀ err, parse keys = .error err → err.kind ≠ .tooDeep := by
  intro keys
  have hcount : 3 * keys.countP (fun k => k.closing?.isSome) +
      keys.countP (fun k => k.operator?.isSome) ≤ 254 := by decide
  exact ⟨hcount, (nesting_budget Nat).1 keys hcount⟩

end Keypad.Grammar
