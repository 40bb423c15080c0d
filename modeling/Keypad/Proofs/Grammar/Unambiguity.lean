import Keypad.Proofs.Grammar.Completeness

/-! # Phrases are unambiguous

A phrase can be told from its tree, although the tree does not hold brackets: the root of the tree
tells whether a factor has been in brackets and which tier a phrase in it belongs to. The tree of a
phrase can in turn be read off its keys, so different phrases of a tier spell different keys. -/

namespace Keypad

variable {V : Type}

/-- The **level** of a tree is that of the tier of the operator at its root. The levels of groups and
of atoms are above all tiers. -/
def Expr.level : Expr V → Nat
  | .binary op _ _ => op.tier.level
  | .leading op _ => op.tier.level
  | .trailing op _ => op.tier.level
  | .group _ => 3
  | _ => 4

/-- There are three levels. -/
theorem Tier.level_le (t : Tier) : t.level ≤ 2 := by
  cases t <;> decide

namespace Grammar

/-! ## The level of a phrase -/

/-- A numeral is tighter than every tier and every group. -/
theorem level_numeralTree (n : Numeral) : (numeralTree n : Expr V).level = 4 := by
  fun_cases numeralTree n <;> rfl

mutual

/-- The root of a phrase is at the level of its tier or above, and below all atoms. -/
theorem Phrase.level_tree {t : Tier} : (δ : Phrase V t) → t.level ≤ δ.tree.level ∧ δ.tree.level ≤ 3
  | .operand ω => ⟨Nat.le_of_lt ω.level_tree.1, ω.level_tree.2⟩
  | .binary _ op h _ => by
    rw [Phrase.tree, Expr.level, h]
    exact ⟨Nat.le_refl _, Nat.le_succ_of_le t.level_le⟩
  | .leading op h _ => by
    rw [Phrase.tree, Expr.level, h]
    exact ⟨Nat.le_refl _, Nat.le_succ_of_le t.level_le⟩
  | .trailing _ op h => by
    rw [Phrase.tree, Expr.level, h]
    exact ⟨Nat.le_refl _, Nat.le_succ_of_le t.level_le⟩

/-- The root of an operand is above the level of its tier. -/
theorem Operand.level_tree {t : Tier} : (ω : Operand V t) →
    t.level < ω.tree.level ∧ ω.tree.level ≤ 3
  | .middle p => p.level_tree
  | .high p => p.level_tree
  | .factors _ => ⟨Nat.le_refl 3, Nat.le_refl 3⟩

end

/-- No operand has an operator of its tier at its root. -/
theorem Operand.level_ne {t : Tier} (ω : Operand V t) {e : Expr V} (h : e.level = t.level) :
    ω.tree ≠ e := by
  intro he
  have hlt := ω.level_tree.1
  rw [he, h] at hlt
  exact Nat.lt_irrefl _ hlt

/-- No phrase is an atom. -/
theorem Phrase.level_ne {t : Tier} (δ : Phrase V t) {e : Expr V} (h : e.level = 4) :
    δ.tree ≠ e := by
  intro he
  have hle := δ.level_tree.2
  rw [he, h] at hle
  omega

/-! ## The tree of a phrase -/

/-- No numeral is a constant. -/
theorem numeralTree_ne_constant (n : Numeral) (c : Constant V) :
    numeralTree n ≠ .leaf (.constant c) := by
  fun_cases numeralTree n <;> exact nofun

/-- No numeral is an application. -/
theorem numeralTree_ne_apply (n : Numeral) (g : Function) (e : Expr V) :
    numeralTree n ≠ .apply g e := by
  fun_cases numeralTree n <;> exact nofun

/-- Different numerals have different trees. -/
theorem numeralTree_injective {n m : Numeral}
    (h : (numeralTree n : Expr V) = numeralTree m) : n = m := by
  revert h
  fun_cases numeralTree n <;> fun_cases numeralTree m <;> intro h <;> simp_all

/-- There is at least one factor. -/
theorem Factors.trees_ne_nil {b : Bool} (fs : Factors V b) : fs.trees ≠ [] := by
  cases fs with
  | single f => exact List.cons_ne_nil _ _
  | snoc fs f _ => exact List.append_ne_nil_of_right_ne_nil _ (List.cons_ne_nil _ _)

/-- A single factor is not two of them. -/
theorem Factors.singleton_ne_append {b : Bool} (fs : Factors V b) (e e' : Expr V) :
    [e] ≠ fs.trees ++ [e'] := by
  intro h
  have hnil : [] ++ [e] = fs.trees ++ [e'] := h
  exact fs.trees_ne_nil (List.append_inj_left' hnil rfl).symm

mutual

/-- **Phrases of a tier are told apart by their trees.** -/
theorem Phrase.tree_injective {t : Tier} : (p q : Phrase V t) → p.tree = q.tree → p = q
  | .operand ω, .operand ω', h => congrArg _ (ω.tree_injective ω' h)
  | .binary l op _ r, .binary l' op' _ r', h => by
    injection h with hop hl hr
    subst hop
    rw [l.tree_injective l' hl, r.tree_injective r' hr]
  | .leading op _ r, .leading op' _ r', h => by
    injection h with hop hr
    subst hop
    rw [r.tree_injective r' hr]
  | .trailing l op _, .trailing l' op' _, h => by
    injection h with hop hl
    subst hop
    rw [l.tree_injective l' hl]
  -- the tree of an operand has no operator of the tier at its root
  | .operand ω, .binary _ _ ht _, h => absurd h (ω.level_ne (congrArg Tier.level ht))
  | .operand ω, .leading _ ht _, h => absurd h (ω.level_ne (congrArg Tier.level ht))
  | .operand ω, .trailing _ _ ht, h => absurd h (ω.level_ne (congrArg Tier.level ht))
  | .binary _ _ ht _, .operand ω, h => absurd h.symm (ω.level_ne (congrArg Tier.level ht))
  | .leading _ ht _, .operand ω, h => absurd h.symm (ω.level_ne (congrArg Tier.level ht))
  | .trailing _ _ ht, .operand ω, h => absurd h.symm (ω.level_ne (congrArg Tier.level ht))
  -- different forms have different trees
  | .binary .., .leading .., h => nomatch h
  | .binary .., .trailing .., h => nomatch h
  | .leading .., .binary .., h => nomatch h
  | .leading .., .trailing .., h => nomatch h
  | .trailing .., .binary .., h => nomatch h
  | .trailing .., .leading .., h => nomatch h
termination_by structural p => p

/-- Operands of the same tree are equal: their tiers tell which of the two forms they have. -/
theorem Operand.tree_injective {t : Tier} : (p q : Operand V t) → p.tree = q.tree → p = q
  | .middle p, .middle q, h => congrArg _ (p.tree_injective q h)
  | .high p, .high q, h => congrArg _ (p.tree_injective q h)
  | .factors fs, .factors gs, h => by
    injection h with h
    cases fs.trees_injective gs h
    rfl
termination_by structural p => p

/-- Factors of the same trees are equal, and so is what they end with. -/
theorem Factors.trees_injective {a b : Bool} : (fs : Factors V a) → (gs : Factors V b) →
    fs.trees = gs.trees → (⟨a, fs⟩ : Σ b, Factors V b) = ⟨b, gs⟩
  | .single f, .single g, h => by
    injection h with h
    cases f.tree_injective g h
    rfl
  | .snoc fs f _, .snoc gs g _, h => by
    obtain ⟨hfs, hf⟩ := List.append_inj' h rfl
    cases fs.trees_injective gs hfs
    injection hf with hf
    cases f.tree_injective g hf
    rfl
  | .single f, .snoc gs g _, h => absurd h (gs.singleton_ne_append f.tree g.tree)
  | .snoc gs g _, .single f, h => absurd h.symm (gs.singleton_ne_append f.tree g.tree)
termination_by structural fs => fs

/-- Factors in brackets are phrases, and the others are atoms. -/
theorem Factor.tree_injective {a b : Bool} : (f : Factor V a) → (g : Factor V b) →
    f.tree = g.tree → (⟨a, f⟩ : Σ b, Factor V b) = ⟨b, g⟩
  | .bracketed p, .bracketed q, h => by
    rw [p.tree_injective q h]
  | .apply _ p, .apply _ q, h => by
    injection h with hg hp
    rw [hg, p.tree_injective q hp]
  | .constant c, .constant c', h => by
    injection h with h
    injection h with h
    rw [h]
  | .numeral n _, .numeral m _, h => by
    cases numeralTree_injective h
    rfl
  -- what is in brackets is a phrase, and the tree of a phrase is no atom
  | .bracketed p, .apply .., h => absurd h (p.level_ne rfl)
  | .bracketed p, .constant _, h => absurd h (p.level_ne rfl)
  | .bracketed p, .numeral n _, h => absurd h (p.level_ne (level_numeralTree n))
  | .apply .., .bracketed p, h => absurd h.symm (p.level_ne rfl)
  | .constant _, .bracketed p, h => absurd h.symm (p.level_ne rfl)
  | .numeral n _, .bracketed p, h => absurd h.symm (p.level_ne (level_numeralTree n))
  | .apply .., .constant _, h => nomatch h
  | .constant _, .apply .., h => nomatch h
  | .apply .., .numeral n _, h => absurd h.symm (numeralTree_ne_apply n _ _)
  | .numeral n _, .apply .., h => absurd h (numeralTree_ne_apply n _ _)
  | .constant _, .numeral n _, h => absurd h.symm (numeralTree_ne_constant n _)
  | .numeral n _, .constant _, h => absurd h (numeralTree_ne_constant n _)
termination_by structural f => f

end

/-! ## The keys of a phrase -/

/-- The keys of a phrase determine its tree: both are what the tier reads on these keys alone. -/
theorem Phrase.tree_eq_of_keys_eq {t : Tier} {p q : Phrase V t} (h : p.keys = q.keys) :
    p.tree = q.tree := by
  -- what is read is determined by the keys, and it is the tree of either phrase
  have hp := p.reads 0 (Stops.nil (V := V))
  have hq := q.reads 0 (Stops.nil (V := V))
  rw [h] at hp
  exact (hp.unique hq).1

/-- **No keys have two derivations** from the same tier. -/
theorem Phrase.keys_injective {t : Tier} {p q : Phrase V t} (h : p.keys = q.keys) : p = q :=
  p.tree_injective q (Phrase.tree_eq_of_keys_eq h)

/-- A phrase spells at least one key. -/
theorem Phrase.keys_ne_nil {t : Tier} (δ : Phrase V t) : δ.keys ≠ [] := by
  intro h
  have hread := δ.reads 0 (Stops.nil (V := V))
  rw [h] at hread
  have hnil : Stops t.level ([] : List (Key V)) := .nil
  exact (refuses_call hnil).not_reads hread

end Grammar

end Keypad
