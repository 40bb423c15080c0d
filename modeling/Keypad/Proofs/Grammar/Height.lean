import Keypad.Proofs.Expr.Height
import Keypad.Proofs.Grammar.Levels

/-! # The height of parsed expressions

Nesting is counted in levels and not in nodes, and some steps from a node to an operand open no
level: that from an operation of the tightest tier to its right operand, and that from a group to a
factor. Five nodes for every three levels is the most that a phrase can have below each other: an
operation of each tier, a group and a function, whose brackets lead back to the loosest tier. So the
limit on nesting bounds the height of whatever is parsed, and the recursions that go through it. -/

namespace Keypad.Grammar

open Keypad.Expr

variable {V : Type}

/-! ## The height of a phrase -/

/-- A phrase opens a level for every tier tighter than its own. -/
theorem Phrase.le_levels {t : Tier} : (δ : Phrase V t) → 2 - t.level ≤ δ.levels
  | .operand (.middle p) => Nat.succ_le_succ p.le_levels
  | .operand (.high p) => Nat.succ_le_succ (Nat.zero_le _)
  | .operand (.factors _) => Nat.zero_le _
  | .binary lhs _ _ _ => (lhs.le_levels.trans (Nat.le_succ _)).trans (le_max_right _ _)
  | .leading _ _ _ => (Nat.le_succ _).trans (le_max_right _ _)
  | .trailing lhs _ _ => lhs.le_levels.trans (Nat.le_succ _)

/-- A numeral is a single node. -/
@[simp] theorem height_numeralTree (n : Numeral) : (numeralTree n : Expr V).height = 1 := by
  fun_cases numeralTree n <;> rfl

mutual

/-- **The levels of a phrase bound its height.** A phrase of a tighter tier has opened fewer levels
for the nodes it has, and one without any levels has two nodes, a group and a factor. -/
theorem Phrase.height_tree_le {t : Tier} : (δ : Phrase V t) →
    3 * δ.tree.height ≤ max 6 (5 * δ.levels + 2 * t.level)
  | .operand ω => by
    have hω := ω.height_tree_le
    rw [Phrase.tree, Phrase.levels]
    omega
  | .binary lhs op h rhs => by
    have hlhs := lhs.height_tree_le
    have hrhs := rhs.height_tree_le
    -- the level of the left operand makes room for the two nodes that a lone factor has
    have hlevels := lhs.le_levels
    have := t.level_le
    rw [Phrase.tree, height, Phrase.levels]
    omega
  | .leading op h rhs => by
    have hrhs := rhs.height_tree_le
    have := t.level_le
    rw [Phrase.tree, height, Phrase.levels]
    omega
  | .trailing lhs op h => by
    have hlhs := lhs.height_tree_le
    have hlevels := lhs.le_levels
    have := t.level_le
    rw [Phrase.tree, height, Phrase.levels]
    omega

/-- The bound for operands, which are groups of factors or phrases of a tighter tier. -/
theorem Operand.height_tree_le {t : Tier} : (ω : Operand V t) →
    3 * (ω.tree.height + 1) ≤ max 9 (5 * ω.levels + 2 * t.level)
  | .middle p => by
    have hp := p.height_tree_le
    rw [Operand.tree, Operand.levels]
    simp only [Tier.level] at hp ⊢
    omega
  | .high p => by
    have hp := p.height_tree_le
    rw [Operand.tree, Operand.levels]
    simp only [Tier.level] at hp ⊢
    omega
  | .factors fs => by
    -- the factors are multiplied in one node
    have hfs := fs.heightAll_trees_le
    rw [Operand.tree, height, Operand.levels]
    simp only [Tier.level]
    omega

/-- The bound for factors: of the tree of each of them. -/
theorem Factors.heightAll_trees_le {b : Bool} : (fs : Factors V b) →
    3 * heightAll fs.trees + 2 ≤ max 5 (5 * fs.levels)
  | .single f => by
    have hf := f.height_tree_le
    rw [Factors.trees, heightAll, heightAll, Factors.levels]
    omega
  | .snoc fs f h => by
    have hf := f.height_tree_le
    have hfs := fs.heightAll_trees_le
    rw [Factors.trees, heightAll_append, heightAll, heightAll, Factors.levels]
    omega

/-- The bound for a factor. Only brackets and functions hold phrases, and they open three levels. -/
theorem Factor.height_tree_le {b : Bool} : (f : Factor V b) →
    3 * f.tree.height + 2 ≤ max 5 (5 * f.levels)
  | .bracketed p => by
    have hp := p.height_tree_le
    have hlevels := p.le_levels
    rw [Factor.tree, Factor.levels]
    simp only [Tier.level] at hp hlevels
    omega
  | .apply g p => by
    have hp := p.height_tree_le
    have hlevels := p.le_levels
    rw [Factor.tree, height, Factor.levels]
    simp only [Tier.level] at hp hlevels
    omega
  -- what has no operands is no deeper than the bound for one level
  | .constant _ => le_max_left _ _
  | .numeral n h => by
    rw [Factor.tree, height_numeralTree]
    omega

end

/-- Five nodes for every three levels is the most that a parsed expression can have below each
other. -/
theorem three_mul_height_le {keys : List (Key V)} {e : Expr V} (h : Expr.ofKeys keys = .ok e) :
    3 * e.height ≤ 5 * maxNesting := by
  obtain ⟨δ, -, rfl, hle⟩ := ofKeys_eq_ok_iff_levels.1 h
  have hδ := δ.height_tree_le
  rw [maxNesting] at hle ⊢
  simp only [Tier.level] at hδ
  omega

/-! ## The highest phrases -/

/-- The digit one, as an operand of any tier. -/
def Operand.one (t : Tier) : Operand V t := (Factor.numeral [some 1] nofun).operand t

/-- Products are of the middle tier. -/
theorem tier_multiply : BinaryOp.multiply.tier = .middle := rfl

/-- Powers are of the tightest tier. -/
theorem tier_power : BinaryOp.power.tier = .high := rfl

/-- A power of a phrase. -/
def Phrase.raised (p : Phrase V .high) (ω : Operand V .high) : Phrase V .high :=
  .binary p .power tier_power ω

/-- A phrase as the last operand of `1+1×…`. -/
def Phrase.inSum (p : Phrase V .high) : Phrase V .low :=
  (Phrase.operand (.one .low)).plus
    (.middle (.binary (.operand (.one .middle)) .multiply tier_multiply (.high p)))

/-- The levels of a phrase at the end of a sum and a product. -/
theorem Phrase.levels_inSum (p : Phrase V .high) :
    p.inSum.levels = max (max (p.levels + 1) 2 + 1) 3 := rfl

/-- The height of a phrase at the end of a sum and a product. -/
theorem Phrase.height_tree_inSum (p : Phrase V .high) :
    p.inSum.tree.height = max 2 (max 2 p.tree.height + 1) + 1 := rfl

/-- The phrase `1+1×1^sin(…)`, which has an operation of each tier, a group and a function above
the phrase in brackets. -/
def Phrase.deepened (δ : Phrase V .low) : Phrase V .low :=
  ((Phrase.operand (.one .high)).raised (.factors (.single (.apply .sin δ)))).inSum

/-- Deepening a phrase costs three levels. -/
theorem Phrase.levels_deepened (δ : Phrase V .low) : δ.deepened.levels = δ.levels + 3 := by
  have hpower : ((Phrase.operand (.one .high)).raised
      (.factors (.single (.apply .sin δ)))).levels = max (δ.levels + 1) 1 := rfl
  rw [deepened, levels_inSum, hpower]
  omega

/-- For these three levels the tree becomes five nodes higher. -/
theorem Phrase.height_tree_deepened (δ : Phrase V .low) :
    δ.deepened.tree.height = δ.tree.height + 5 := by
  have hpower : ((Phrase.operand (.one .high)).raised
      (.factors (.single (.apply .sin δ)))).tree.height =
        max 2 (max (δ.tree.height + 1) 0 + 1) + 1 := rfl
  rw [deepened, height_tree_inSum, hpower]
  omega

/-- A phrase as deep as the limit allows: `1+1×1^1^1` inside 84 sines. -/
def deepest (V : Type) : Phrase V .low :=
  Phrase.deepened^[84]
    (((Phrase.operand (.one .high)).raised (.one .high)).raised (.one .high)).inSum

/-- Deepening a phrase repeatedly costs three levels each time. -/
theorem Phrase.levels_iterate_deepened (δ : Phrase V .low) (k : Nat) :
    (deepened^[k] δ).levels = δ.levels + 3 * k := by
  induction k with
  | zero => rfl
  | succ k ih =>
    rw [Function.iterate_succ_apply', levels_deepened, ih]
    omega

/-- Each time the tree becomes five nodes higher. -/
theorem Phrase.height_tree_iterate_deepened (δ : Phrase V .low) (k : Nat) :
    (deepened^[k] δ).tree.height = δ.tree.height + 5 * k := by
  induction k with
  | zero => rfl
  | succ k ih =>
    rw [Function.iterate_succ_apply', height_tree_deepened, ih]
    omega

/-- The deepest phrase needs all levels there are. -/
theorem levels_deepest : (deepest V).levels = maxNesting :=
  Phrase.levels_iterate_deepened _ 84

/-- The height of the deepest phrase. -/
theorem height_tree_deepest : (deepest V).tree.height = 426 :=
  Phrase.height_tree_iterate_deepened _ 84

/-- **The longest paths** of parsed expressions have 426 nodes. -/
theorem isGreatest_length_path (V : Type) :
    IsGreatest {n | ∃ (keys : List (Key V)) (e : Expr V) (path : List (Expr V)),
      Expr.ofKeys keys = .ok e ∧ e.IsPath path ∧ path.length = n} 426 := by
  constructor
  · obtain ⟨path, hpath, hlen⟩ := (deepest V).tree.exists_isPath_length_eq
    exact ⟨(deepest V).keys, _, path, ofKeys_of_levels_le levels_deepest.le, hpath,
      hlen.trans height_tree_deepest⟩
  · rintro n ⟨keys, e, path, h, hpath, rfl⟩
    have hheight := three_mul_height_le h
    have hlen := hpath.length_le_height
    rw [maxNesting] at hheight
    omega

/-! ## Recursion through parsed expressions -/

/-- **Parsed expressions have bounded trees.** However many keys there are, no path from the root of
what they are parsed as has more nodes than twice the limit on nesting. So many calls inside each
other are enough to evaluate the expression, to describe it and to discard it. -/
theorem recursion_bounded_of_ofKeys {keys : List (Key V)} {e : Expr V}
    (h : Expr.ofKeys keys = .ok e) :
    (∀ path, e.IsPath path → path.length ≤ 2 * maxNesting) ∧
      (∀ [Arithmetic V], within evalCall (2 * maxNesting) e = some e.eval) ∧
      within describeCall (2 * maxNesting) e = some e.describe ∧
      within discardCall (2 * maxNesting) e = some () := by
  have hheight : e.height ≤ 2 * maxNesting := by
    have := three_mul_height_le h
    omega
  exact ⟨height_le_iff.1 hheight, within_evalCall hheight,
    within_describeCall_eq_some_iff.2 ⟨hheight, rfl⟩, within_discardCall_eq_some_iff.2 hheight⟩

/-- The deepest phrase has a path of 426 nodes, and 512 calls inside each other are enough for
it. -/
theorem recursion_bounded_deepest :
    ∃ e : Expr Value, Expr.ofKeys (deepest Value).keys = .ok e ∧
      (∃ path, e.IsPath path ∧ path.length = 426) ∧
      (∀ path, e.IsPath path → path.length ≤ 512) ∧ within evalCall 512 e = some e.eval ∧
      within describeCall 512 e = some e.describe ∧ within discardCall 512 e = some () := by
  have h := ofKeys_of_levels_le (levels_deepest (V := Value)).le
  obtain ⟨path, hpath, hlen⟩ := (deepest Value).tree.exists_isPath_length_eq
  obtain ⟨hpaths, heval, hdescribe, hdiscard⟩ := recursion_bounded_of_ofKeys h
  exact ⟨_, h, ⟨path, hpath, hlen.trans height_tree_deepest⟩, hpaths, heval, hdescribe, hdiscard⟩

end Keypad.Grammar
