import Keypad.Proofs.Expr.Description
import Keypad.Proofs.Grammar.Levels

/-! # Descriptions that nest too deep

The brackets of a description cost levels of nesting like any others, and there are more of them
than in the keys that are described: a lone digit is already a group. So there are keys that are
parsed, but not their description. How many levels a description needs is counted on the expression,
and this count decides whether the description is parsed. -/

namespace Keypad

open Grammar Lexeme

namespace Expr

variable {V : Type}

/-! ## Counting -/

mutual

/-- The **levels** that the description of an expression needs. A pair of brackets opens a level of
every tier, and a left operand is one level deeper. -/
def levels : Expr V → Nat
  | .leaf _ => 0
  | .number _ => 0
  | .group es => productLevels 0 es + 2
  | .binary _ lhs rhs => max rhs.levels (lhs.levels + 1) + 3
  | .leading _ rhs => max rhs.levels 1 + 3
  | .trailing _ lhs => lhs.levels + 1 + 3
  | .apply _ arg => arg.levels + 3

/-- The levels that a product needs if that of the factors before needs `n`: each factor makes what
is before it a left operand. -/
def productLevels (n : Nat) : List (Expr V) → Nat
  | [] => n
  | e :: es => productLevels (max e.levels n + 1) es

end

/-- A further factor makes those before it a left operand. -/
theorem productLevels_append (n : Nat) (es : List (Expr V)) (e : Expr V) :
    productLevels n (es ++ [e]) = max e.levels (productLevels n es) + 1 := by
  induction es generalizing n with
  | nil => rfl
  | cons e' es ih => rw [List.cons_append, productLevels, ih, productLevels]

/-! ## The factor that a description spells -/

/-- The explicit form of an expression is the tree of a factor that has the levels of the
expression. -/
def Counted (e : Expr V) : Prop :=
  ∃ (b : Bool) (f : Factor V b), f.tree = e.explicit ∧ f.levels = e.levels

/-- The product of some expressions is the tree of a phrase that has their levels. -/
def CountedProduct (es : List (Expr V)) : Prop :=
  ∃ p : Phrase V .middle, p.tree = product (explicitAll es) ∧ p.levels = productLevels 0 es

/-- A factor as an operand of a tier is inside a phrase of every tighter tier. -/
theorem levels_operand {b : Bool} (f : Factor V b) (t : Tier) :
    (f.operand t).levels = f.levels + (2 - t.level) := by
  cases t <;> rfl

/-- A phrase of the loosest tier holds one of a tighter tier as many levels deeper. -/
theorem levels_toLow {t : Tier} (p : Phrase V t) : p.toLow.levels = p.levels + t.level := by
  cases t <;> rfl

/-- A phrase in brackets opens a level of every tier, whatever its own tier is. -/
theorem counted_of_phrase {t : Tier} (p : Phrase V t) {e : Expr V} (htree : p.tree = e.explicit)
    (hlevels : p.levels + t.level + 1 = e.levels) : Counted e := by
  refine ⟨false, .bracketed p.toLow, p.tree_toLow.trans htree, ?_⟩
  rw [Factor.levels, levels_toLow, hlevels]

/-- A binary operation is counted if both operands are. -/
theorem Counted.binary {lhs rhs : Expr V} (op : BinaryOp) (hlhs : Counted lhs)
    (hrhs : Counted rhs) : Counted (.binary op lhs rhs) := by
  obtain ⟨_, f, hf, hflevels⟩ := hlhs
  obtain ⟨_, g, hg, hglevels⟩ := hrhs
  refine counted_of_phrase (.binary (.operand (f.operand op.tier)) op rfl (g.operand op.tier)) ?_ ?_
  · rw [Phrase.tree, Phrase.tree, f.tree_operand, g.tree_operand, hf, hg, explicit]
  · have := op.tier.level_le
    rw [Phrase.levels, Phrase.levels, levels_operand, levels_operand, hflevels, hglevels, levels]
    omega

/-- A leading operation is counted if its operand is. -/
theorem Counted.leading {rhs : Expr V} (op : PrefixOp) (hrhs : Counted rhs) :
    Counted (.leading op rhs) := by
  obtain ⟨_, g, hg, hglevels⟩ := hrhs
  refine counted_of_phrase (.leading op rfl (g.operand op.tier)) ?_ ?_
  · rw [Phrase.tree, g.tree_operand, hg, explicit]
  · have := op.tier.level_le
    rw [Phrase.levels, levels_operand, hglevels, levels]
    omega

/-- A trailing operation is counted if its operand is. -/
theorem Counted.trailing {lhs : Expr V} (op : PostfixOp) (hlhs : Counted lhs) :
    Counted (.trailing op lhs) := by
  obtain ⟨_, f, hf, hflevels⟩ := hlhs
  refine counted_of_phrase (.trailing (.operand (f.operand op.tier)) op rfl) ?_ ?_
  · rw [Phrase.tree, Phrase.tree, f.tree_operand, hf, explicit]
  · have := op.tier.level_le
    rw [Phrase.levels, Phrase.levels, levels_operand, hflevels, levels]
    omega

/-- An application is counted if its argument is. -/
theorem Counted.apply {arg : Expr V} (f : Function) (harg : Counted arg) :
    Counted (.apply f arg) := by
  obtain ⟨_, g, hg, hglevels⟩ := harg
  refine ⟨false, .apply f (.operand (g.operand .low)), ?_, ?_⟩
  · rw [Factor.tree, Phrase.tree, g.tree_operand, hg, explicit]
  · rw [Factor.levels, Phrase.levels, levels_operand, hglevels, levels]
    rfl

/-- A group is counted if its factors are as their product. -/
theorem CountedProduct.group {es : List (Expr V)} (hes : CountedProduct es) :
    Counted (.group es) := by
  obtain ⟨p, hp, hlevels⟩ := hes
  refine counted_of_phrase p ?_ ?_
  · rw [hp, explicit]
  · rw [hlevels, levels]
    rfl

/-- The product of one factor has its levels. -/
theorem countedProduct_singleton {e : Expr V} (he : Counted e) : CountedProduct [e] := by
  obtain ⟨_, f, hf, hlevels⟩ := he
  refine ⟨.operand (f.operand .middle), ?_, ?_⟩
  · rw [Phrase.tree, f.tree_operand, hf]
    rfl
  · rw [Phrase.levels, levels_operand, hlevels, productLevels, productLevels, Nat.max_zero]
    rfl

/-- A further factor is counted as the right operand of a product. -/
theorem CountedProduct.append {es : List (Expr V)} {e : Expr V} (hes : CountedProduct es)
    (hne : es ≠ []) (he : Counted e) : CountedProduct (es ++ [e]) := by
  obtain ⟨p, hp, hplevels⟩ := hes
  obtain ⟨_, f, hf, hflevels⟩ := he
  refine ⟨.binary p .multiply rfl (f.operand .middle), ?_, ?_⟩
  · show Expr.binary .multiply p.tree (f.operand .middle).tree = _
    rw [f.tree_operand, hp, hf, explicitAll_append, explicitAll, explicitAll, product_append]
    cases es with
    | nil => exact absurd rfl hne
    | cons e' es => exact List.cons_ne_nil _ _
  · show max (f.operand .middle).levels (p.levels + 1) = _
    rw [levels_operand, hplevels, hflevels, productLevels_append, Tier.level]
    omega

/-- A numeral is counted: it needs no levels but its own. -/
theorem counted_numeral {n : Numeral} (hne : n ≠ []) : Counted (numeralTree n : Expr V) := by
  refine ⟨true, .numeral n hne, ?_, ?_⟩
  · show numeralTree n = _
    fun_cases numeralTree n <;> rfl
  · show 0 = _
    fun_cases numeralTree n <;> rfl

end Expr

/-! ## Phrases -/

namespace Grammar

variable {V : Type}

mutual

/-- The levels of the description of a phrase are those that its explicit form needs. -/
theorem Phrase.counted {t : Tier} : (δ : Phrase V t) → Expr.Counted δ.tree
  | .operand ω => ω.counted
  | .binary lhs op _ rhs => lhs.counted.binary op rhs.counted
  | .leading op _ rhs => rhs.counted.leading op
  | .trailing lhs op _ => lhs.counted.trailing op

/-- Operands are counted, as the phrase or the factors that they are. -/
theorem Operand.counted {t : Tier} : (ω : Operand V t) → Expr.Counted ω.tree
  | .middle p => p.counted
  | .high p => p.counted
  | .factors fs => fs.counted.group

/-- Factors are counted as their product. -/
theorem Factors.counted {b : Bool} : (fs : Factors V b) → Expr.CountedProduct fs.trees
  | .single f => Expr.countedProduct_singleton f.counted
  | .snoc fs f _ => fs.counted.append fs.trees_ne_nil f.counted

/-- Factors are counted one by one. -/
theorem Factor.counted {b : Bool} : (f : Factor V b) → Expr.Counted f.tree
  | .bracketed p => p.counted
  | .apply g p => p.counted.apply g
  | .constant c => ⟨false, .constant c, rfl, rfl⟩
  | .numeral _ hne => Expr.counted_numeral hne

end

/-- **The description of a phrase is read as a phrase** of the levels counted, whose tree is a group
of the explicit form. -/
theorem Phrase.read_describe (s : Session V) (δ : Phrase V .low) (h : Typable s.answer δ.keys) :
    ∃ p : Phrase V .low, s.read δ.tree.describe = .ok p.keys ∧
      p.tree = .group [δ.tree.explicit] ∧ p.levels = δ.tree.levels + 2 := by
  obtain ⟨b, f, hf, hspells⟩ := δ.readsBack h
  obtain ⟨b', f', hf', hlevels⟩ := δ.counted
  -- the factor is determined by its tree, so it is the one that has been counted
  cases f.tree_injective f' (hf.trans hf'.symm)
  refine ⟨.operand (f.operand .low), ?_, ?_, ?_⟩
  · rw [Phrase.keys, f.keys_operand]
    exact (hspells [] noExponent_nil).read
  · rw [Phrase.tree, f.tree_operand, hf]
  · rw [Phrase.levels, Expr.levels_operand, hlevels]
    rfl

/-- The description of a phrase in brackets needs a level of every tier for each pair. -/
theorem Phrase.levels_tree_inBrackets (δ : Phrase V .low) (k : Nat) :
    (δ.inBrackets k).tree.levels = 3 * k + δ.tree.levels := by
  induction k with
  | zero => exact (Nat.zero_add _).symm
  | succ k ih =>
    rw [inBrackets, Phrase.tree, Factor.tree_operand, Factor.tree, Expr.levels, Expr.productLevels,
      Expr.productLevels, ih]
    omega

/-- A digit, as a phrase. -/
def Phrase.digit (V : Type) (d : Nat) : Phrase V .low :=
  .operand ((Factor.numeral [some d] nofun).operand .low)

/-- A decimal digit in brackets is typable, whatever the answer is. -/
theorem typable_brackets (answer : V) {d : Nat} (hd : d ≤ 9) (k : Nat) :
    Typable answer ((Phrase.digit V d).inBrackets k).keys := by
  have hmem {k' : Key V} (h : k' ∈ ((Phrase.digit V d).inBrackets k).keys) (hne : k' ≠ .opening)
      (hne' : k' ≠ .closing) : k' = .digit d := by
    rw [Phrase.keys_inBrackets, List.mem_append, List.mem_append] at h
    rcases h with h | h | h
    · exact absurd (List.eq_of_mem_replicate h) hne
    · exact List.mem_singleton.1 h
    · exact absurd (List.eq_of_mem_replicate h) hne'
  refine ⟨fun d' hd' => ?_, fun v hv => ?_⟩
  · rw [Key.digit.inj (hmem hd' nofun nofun)]
    exact hd
  · cases hmem hv nofun nofun

end Grammar

/-- **Which descriptions are parsed**: the description of what typable keys are parsed as is read as
keys again. If the limit leaves room for the levels that it needs, these are parsed as a group of
the explicit form; otherwise their nesting is exceeded. -/
theorem parse_describe_levels {V : Type} (s : Session V) {keys : List (Key V)} {e : Expr V}
    (hkeys : Typable s.answer keys) (h : Expr.ofKeys keys = .ok e) :
    ∃ keys', s.read e.describe = .ok keys' ∧
      (e.levels + 2 ≤ maxNesting → Expr.ofKeys keys' = .ok (.group [e.explicit])) ∧
      (maxNesting < e.levels + 2 →
        ∃ err, Grammar.parse keys' = .error err ∧ err.kind = .tooDeep) := by
  obtain ⟨δ, rfl, rfl⟩ := exists_phrase_of_ofKeys h
  obtain ⟨p, hread, htree, hlevels⟩ := δ.read_describe s hkeys
  refine ⟨p.keys, hread, fun hle => ?_, fun hlt => parse_tooDeep (hlevels ▸ hlt)⟩
  rw [← htree]
  exact ofKeys_of_levels_le (hlevels ▸ hle)

/-- In 83 pairs of brackets a digit is parsed, and so is its description. -/
theorem parse_describe_levels_brackets :
    let s : Session Nat := ⟨0⟩
    let keys : List (Key Nat) :=
      List.replicate 83 .opening ++ .digit 1 :: List.replicate 83 .closing
    ∃ e, Typable s.answer keys ∧ Expr.ofKeys keys = .ok e ∧ e.levels + 2 ≤ maxNesting ∧
      ∃ keys', s.read e.describe = .ok keys' ∧
        (e.levels + 2 ≤ maxNesting → Expr.ofKeys keys' = .ok (.group [e.explicit])) ∧
        (maxNesting < e.levels + 2 →
          ∃ err, Grammar.parse keys' = .error err ∧ err.kind = .tooDeep) := by
  intro s keys
  let δ := (Phrase.digit Nat 1).inBrackets 83
  have hkeys : δ.keys = keys := Phrase.keys_inBrackets _ _
  have hlevels : δ.levels ≤ maxNesting := by
    rw [Phrase.levels_inBrackets]
    decide
  -- a pair of brackets takes three levels, and no more than 83 pairs fit
  have htree : δ.tree.levels + 2 ≤ maxNesting := by
    rw [Phrase.levels_tree_inBrackets]
    decide
  have htypable : Typable s.answer keys := hkeys ▸ typable_brackets _ (by decide) _
  have h : Expr.ofKeys keys = .ok δ.tree := hkeys ▸ ofKeys_of_levels_le hlevels
  exact ⟨δ.tree, htypable, h, htree, parse_describe_levels s htypable h⟩

/-- **In 84 pairs of brackets a digit is parsed, but its description is not**, which has one pair
more. -/
theorem not_parse_describe_brackets :
    let s : Session Nat := ⟨0⟩
    let keys : List (Key Nat) :=
      List.replicate 84 .opening ++ .digit 1 :: List.replicate 84 .closing
    Typable s.answer keys ∧ ∃ e, Expr.ofKeys keys = .ok e ∧
      ∃ keys', s.read e.describe = .ok keys' ∧ ∀ e', Expr.ofKeys keys' ≠ .ok e' := by
  intro s keys
  let δ := (Phrase.digit Nat 1).inBrackets 84
  have hkeys : δ.keys = keys := Phrase.keys_inBrackets _ _
  have hlevels : δ.levels ≤ maxNesting := by
    rw [Phrase.levels_inBrackets]
    decide
  have htypable : Typable s.answer δ.keys := typable_brackets _ (by decide) _
  -- the description reads as a phrase of its own, which is too deep
  obtain ⟨p, hread, -, hp⟩ := δ.read_describe s htypable
  have hdeep : maxNesting < p.levels := by
    rw [hp, Phrase.levels_tree_inBrackets]
    decide
  refine ⟨hkeys ▸ htypable, δ.tree, hkeys ▸ ofKeys_of_levels_le hlevels, p.keys, hread, ?_⟩
  obtain ⟨err, herr, -⟩ := parse_tooDeep hdeep
  exact fun e' h => nomatch herr.symm.trans (ofKeys_eq_ok_iff.1 h)

end Keypad
