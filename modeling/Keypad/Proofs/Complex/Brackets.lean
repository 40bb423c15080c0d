import Keypad.Complex.Arithmetic
import Keypad.Proofs.Double.Products
import Keypad.Proofs.Expr.Explicit
import Keypad.Proofs.Grammar.Levels

/-! # Brackets around an expression

Brackets around a whole expression make a group of it, and its value is multiplied by one. In exact
arithmetic that changes nothing. With doubles it does for some values that are neither real nor
finite: the product takes zero times an infinite part, which is undefined. -/

namespace Keypad

/-! ## The tree -/

section Tree

variable {V : Type} {keys : List (Key V)} {e e' : Expr V}

/-- One pair of brackets makes a group of one factor. -/
theorem Grammar.Phrase.tree_inBrackets_one (δ : Grammar.Phrase V .low) :
    (δ.inBrackets 1).tree = .group [δ.tree] :=
  Grammar.Factor.tree_operand _ _

/-- Brackets around an expression make a group of it. -/
theorem ofKeys_brackets (h : Expr.ofKeys keys = .ok e)
    (h' : Expr.ofKeys (.opening :: keys ++ [.closing]) = .ok e') : e' = .group [e] := by
  obtain ⟨δ, rfl, rfl⟩ := Grammar.exists_phrase_of_ofKeys h
  obtain ⟨δ', hkeys, rfl⟩ := Grammar.exists_phrase_of_ofKeys h'
  rw [Grammar.Phrase.keys_injective (hkeys.trans (δ.keys_inBrackets 1).symm), δ.tree_inBrackets_one]

/-- Within the nesting limit a phrase is an expression, and so it is in brackets. -/
theorem ofKeys_brackets_of_levels_le (δ : Grammar.Phrase V .low)
    (h : δ.levels + 3 ≤ Grammar.maxNesting) :
    Expr.ofKeys δ.keys = .ok δ.tree ∧
      Expr.ofKeys (.opening :: δ.keys ++ [.closing]) = .ok (.group [δ.tree]) := by
  refine ⟨Grammar.ofKeys_of_levels_le (by omega), ?_⟩
  have hlevels := δ.levels_inBrackets 1
  have hbrackets := Grammar.ofKeys_of_levels_le (δ := δ.inBrackets 1) (by omega)
  rwa [δ.keys_inBrackets, δ.tree_inBrackets_one] at hbrackets

/-- Brackets around an expression multiply its value by one. -/
theorem calculate_brackets [Arithmetic V] (h : Expr.ofKeys keys = .ok e)
    (h' : Expr.ofKeys (.opening :: keys ++ [.closing]) = .ok e') :
    calculate (.opening :: keys ++ [.closing]) =
      (calculate keys).map (Arithmetic.multiply Arithmetic.one) := by
  rw [calculate, calculate, h, h', ofKeys_brackets h h']
  dsimp only
  rw [Expr.eval_group_one]
  cases e.eval <;> rfl

end Tree

/-! ## The value -/

namespace Complex

/-- Two values **agree** if their parts do. -/
def Agrees (z w : Value) : Prop := Double.Agrees z.re w.re ∧ Double.Agrees z.im w.im

instance (z w : Value) : Decidable (Agrees z w) :=
  inferInstanceAs (Decidable (_ ∧ _))

/-- **When one is neutral.** -/
theorem multiply_one_agrees_iff (z : Value) :
    Agrees (multiply one z) z ↔
      (z.im == 0) = true ∨ (z.re.isFinite = true ∧ z.im.isFinite = true) ∨
        (z.re.isNaN = true ∧ z.im.isNaN = true) := by
  have hone : (one.im == 0) = true := rfl
  rw [multiply, hone, Bool.true_and]
  cases him : z.im == 0 with
  | true =>
    -- real numbers are multiplied as reals
    obtain ⟨s, hs⟩ := Double.beq_zero_iff.1 him
    have hre : Double.Agrees (1 * z.re) z.re := by
      rw [Double.one_mul]
      exact Double.agrees_refl z.re
    exact iff_of_true ⟨hre, Double.agrees_of_zero Double.unpack_zero hs⟩ (.inl rfl)
  | false =>
    have hre : (1 * z.re - 0 * z.im : Float) = z.re - 0 * z.im := by rw [Double.one_mul]
    have him : (1 * z.im + 0 * z.re : Float) = z.im + 0 * z.re := by rw [Double.one_mul]
    have hparts : Agrees (one * z) z ↔
        Double.Agrees (z.re - 0 * z.im) z.re ∧ Double.Agrees (z.im + 0 * z.re) z.im := by
      rw [← hre, ← him]
      rfl
    rw [if_neg Bool.false_ne_true, hparts, Double.agrees_sub_zero_mul_iff,
      Double.agrees_add_zero_mul_iff, or_iff_right Bool.false_ne_true]
    -- a part that is finite is not undefined, so the mixed cases do not occur
    have hnan {x : Float} (hfinite : x.isFinite = true) (h : x.isNaN = true) : False :=
      Bool.eq_false_iff.1 (Double.isNaN_of_isFinite hfinite) h
    constructor
    · rintro ⟨him | hre, hre' | him'⟩
      · exact .inl ⟨hre', him⟩
      · exact (hnan him him').elim
      · exact (hnan hre' hre).elim
      · exact .inr ⟨hre, him'⟩
    · rintro (⟨hre, him⟩ | ⟨hre, him⟩)
      · exact ⟨.inl him, .inl hre⟩
      · exact ⟨.inr hre, .inr him⟩

end Complex

/-! ## Infinite values -/

/-- The phrase `1÷0`, whose value is infinite and real. -/
def infiniteQuotient : Grammar.Phrase Value .middle :=
  .binary (.operand ((Grammar.Factor.numeral [some 1] (List.cons_ne_nil _ _)).operand .middle))
    .divide rfl ((Grammar.Factor.numeral [some 0] (List.cons_ne_nil _ _)).operand .middle)

/-- One divided by zero is infinite and real. -/
theorem eval_infiniteQuotient : infiniteQuotient.tree.eval = .ok ⟨1 / 0, 0⟩ := by
  have hone : Expr.eval (.group [.leaf (.digit 1)] : Expr Value) = .ok ⟨1, 0⟩ := rfl
  have hzero : Expr.eval (.group [.leaf (.digit 0)] : Expr Value) = .ok ⟨0, 0⟩ := rfl
  have hquotient : Complex.divide ⟨1, 0⟩ ⟨0, 0⟩ = ⟨1 / 0, 0⟩ := rfl
  show Expr.eval (.binary .divide (.group [.leaf (.digit 1)]) (.group [.leaf (.digit 0)])) = _
  rw [Expr.eval_binary, hone, hzero]
  exact congrArg Except.ok hquotient

/-- The phrase `1÷0+i`, whose value is infinite and not real. -/
def infiniteSum : Grammar.Phrase Value .low :=
  .plus (.operand (.middle infiniteQuotient)) ((Grammar.Factor.constant .i).operand .low)

/-- Adding the imaginary unit to it keeps both parts. -/
theorem eval_infiniteSum : infiniteSum.tree.eval = .ok ⟨1 / 0, 1⟩ := by
  have hunit : Expr.eval (.group [.leaf (.constant .i)] : Expr Value) = .ok ⟨0, 1⟩ := rfl
  have hsum : (⟨1 / 0, 0⟩ + ⟨0, 1⟩ : Value) = ⟨1 / 0, 1⟩ := rfl
  show Expr.eval (.binary .add infiniteQuotient.tree (.group [.leaf (.constant .i)])) = _
  rw [Expr.eval_binary, eval_infiniteQuotient, hunit]
  exact congrArg Except.ok hsum

/-- The keys of a phrase are calculated as its tree is evaluated. -/
theorem calculate_phrase {V : Type} [Arithmetic V] {δ : Grammar.Phrase V .low} {v : V}
    (h : Expr.ofKeys δ.keys = .ok δ.tree) (hv : δ.tree.eval = .ok v) :
    calculate δ.keys = .ok v := by
  rw [calculate, h]
  dsimp only
  rw [hv]
  rfl

/-- **Brackets around an expression** keep its error, if it has one, and its value exactly if that is
real, or has finite parts, or undefined ones. -/
theorem calculate_brackets_agrees {keys : List (Key Value)} {e e' : Expr Value}
    (h : Expr.ofKeys keys = .ok e) (h' : Expr.ofKeys (.opening :: keys ++ [.closing]) = .ok e') :
    (∃ err, calculate keys = .error err ∧
        calculate (.opening :: keys ++ [.closing]) = .error err) ∨
      ∃ v w, calculate keys = .ok v ∧ calculate (.opening :: keys ++ [.closing]) = .ok w ∧
        (Complex.Agrees w v ↔
          (v.im == 0) = true ∨ (v.re.isFinite = true ∧ v.im.isFinite = true) ∨
            (v.re.isNaN = true ∧ v.im.isNaN = true)) := by
  rw [calculate_brackets h h']
  cases calculate keys with
  | error err => exact .inl ⟨err, rfl, rfl⟩
  | ok v => exact .inr ⟨v, _, rfl, rfl, Complex.multiply_one_agrees_iff v⟩

/-- In brackets `1÷0` is as infinite as without them, because it is real. -/
theorem calculate_brackets_quotient :
    let keys : List (Key Value) := [.digit 1, .operator .divide, .digit 0]
    (∃ e e', Expr.ofKeys keys = .ok e ∧ Expr.ofKeys (.opening :: keys ++ [.closing]) = .ok e') ∧
      ∃ w, calculate keys = .ok ⟨1 / 0, 0⟩ ∧
        calculate (.opening :: keys ++ [.closing]) = .ok w ∧ Complex.Agrees w ⟨1 / 0, 0⟩ := by
  intro keys
  let δ : Grammar.Phrase Value .low := .operand (.middle infiniteQuotient)
  obtain ⟨h, h'⟩ := ofKeys_brackets_of_levels_le δ (by decide)
  have hvalue : calculate keys = .ok ⟨1 / 0, 0⟩ := calculate_phrase h eval_infiniteQuotient
  refine ⟨⟨_, _, h, h'⟩, ?_⟩
  rcases calculate_brackets_agrees h h' with ⟨err, herr, -⟩ | ⟨v, w, hv, hw, hagrees⟩
  · cases hvalue.symm.trans herr
  · obtain rfl := Except.ok.inj (hvalue.symm.trans hv)
    exact ⟨w, hvalue, hw, hagrees.2 (.inl rfl)⟩

/-- **In brackets `1÷0+i` has another value**, because its imaginary part becomes undefined. -/
theorem not_calculate_brackets_sum :
    let keys : List (Key Value) :=
      [.digit 1, .operator .divide, .digit 0, .operator .plus, .constant .i]
    (∃ e e', Expr.ofKeys keys = .ok e ∧ Expr.ofKeys (.opening :: keys ++ [.closing]) = .ok e') ∧
      ∃ w, calculate keys = .ok ⟨1 / 0, 1⟩ ∧
        calculate (.opening :: keys ++ [.closing]) = .ok w ∧ ¬ Complex.Agrees w ⟨1 / 0, 1⟩ := by
  intro keys
  obtain ⟨h, h'⟩ := ofKeys_brackets_of_levels_le infiniteSum (by decide)
  have hvalue : calculate keys = .ok ⟨1 / 0, 1⟩ := calculate_phrase h eval_infiniteSum
  have hne : ¬ Complex.Agrees (Complex.multiply Complex.one ⟨1 / 0, 1⟩) ⟨1 / 0, 1⟩ := by
    rw [Complex.multiply_one_agrees_iff]
    decide
  have hbrackets := calculate_brackets h h'
  rw [show calculate infiniteSum.keys = _ from hvalue] at hbrackets
  exact ⟨⟨_, _, h, h'⟩, _, hvalue, hbrackets, hne⟩

end Keypad
