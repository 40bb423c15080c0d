import Keypad.Proofs.Grammar.Longest

/-! # From trees back to keys

A tree holds no brackets, but parsing loses nothing by that: a factor that is not an atom has been in
brackets, and nothing else has. So the keys of a phrase can be written again from its tree. -/

namespace Keypad

namespace Expr

variable {V : Type}

/-- An **atom** stands as a factor without brackets of its own. -/
def isAtom : Expr V → Bool
  | .leaf _ => true
  | .number _ => true
  | .apply _ _ => true
  | _ => false

mutual

/-- The **keys** of a tree: operands are written bare, and factors in brackets unless they are
atoms. -/
def unparse : Expr V → List (Key V)
  | .leaf n => [n.key]
  | .number n => Numeral.keys n
  | .group es => unparseFactors es
  | .binary op lhs rhs => unparse lhs ++ .operator op.operator :: unparse rhs
  | .leading op rhs => .operator op.operator :: unparse rhs
  | .trailing op lhs => unparse lhs ++ [.operator op.operator]
  | .apply f arg => .function f :: .opening :: unparse arg ++ [.closing]

/-- The keys of the factors of a group. -/
def unparseFactors : List (Expr V) → List (Key V)
  | [] => []
  | e :: es => (if e.isAtom then unparse e else .opening :: unparse e ++ [.closing]) ++
      unparseFactors es

end

/-- Keys of factors are joined as the factors are. -/
theorem unparseFactors_append (es es' : List (Expr V)) :
    unparseFactors (es ++ es') = unparseFactors es ++ unparseFactors es' := by
  induction es with
  | nil => rfl
  | cons e es ih => rw [List.cons_append, unparseFactors, unparseFactors, ih, List.append_assoc]

/-- Atoms are the trees above the level of groups. -/
theorem isAtom_iff_level {e : Expr V} : e.isAtom = true ↔ e.level = 4 := by
  -- the level of an operation is that of its tier
  have hle (t : Tier) : t.level ≠ 4 := by
    have := t.level_le
    omega
  cases e <;> simp [isAtom, level, hle]

end Expr

namespace Grammar

variable {V : Type}

/-- The keys of a numeral are its figures, also if it is a leaf. -/
theorem unparse_numeralTree (n : Numeral) : (numeralTree n : Expr V).unparse = Numeral.keys n := by
  fun_cases numeralTree n <;> rfl

/-- A numeral is an atom. -/
theorem isAtom_numeralTree (n : Numeral) : (numeralTree n : Expr V).isAtom = true :=
  Expr.isAtom_iff_level.2 (level_numeralTree n)

/-- What stands in brackets is no atom. -/
theorem Phrase.isAtom_tree {t : Tier} (δ : Phrase V t) : δ.tree.isAtom = false := by
  refine Bool.eq_false_iff.2 fun h => ?_
  exact δ.level_ne (Expr.isAtom_iff_level.1 h) rfl

mutual

/-- **Writing the tree of a phrase** gives its keys. -/
theorem Phrase.unparse_tree {t : Tier} : (δ : Phrase V t) → δ.tree.unparse = δ.keys
  | .operand ω => ω.unparse_tree
  | .binary lhs op h rhs => by
    rw [Phrase.tree, Phrase.keys, Expr.unparse, lhs.unparse_tree, rhs.unparse_tree]
  | .leading op h rhs => by
    rw [Phrase.tree, Phrase.keys, Expr.unparse, rhs.unparse_tree]
  | .trailing lhs op h => by
    rw [Phrase.tree, Phrase.keys, Expr.unparse, lhs.unparse_tree]

/-- Operands are unparsed as the phrase or the factors that they are. -/
theorem Operand.unparse_tree {t : Tier} : (ω : Operand V t) → ω.tree.unparse = ω.keys
  | .middle p => p.unparse_tree
  | .high p => p.unparse_tree
  | .factors fs => by
    rw [Operand.tree, Operand.keys, Expr.unparse, fs.unparse_trees]

/-- **Factors are unparsed to their keys.** -/
theorem Factors.unparse_trees {b : Bool} : (fs : Factors V b) →
    Expr.unparseFactors fs.trees = fs.keys
  | .single f => by
    rw [Factors.trees, Factors.keys, f.unparse_tree]
  | .snoc fs f h => by
    rw [Factors.trees, Factors.keys, Expr.unparseFactors_append, fs.unparse_trees, f.unparse_tree]

/-- A factor is written with the brackets it has been in. -/
theorem Factor.unparse_tree {b : Bool} : (f : Factor V b) →
    Expr.unparseFactors [f.tree] = f.keys
  | .bracketed p => by
    rw [Factor.tree, Factor.keys, Expr.unparseFactors, Expr.unparseFactors, List.append_nil,
      if_neg (Bool.eq_false_iff.1 p.isAtom_tree), p.unparse_tree]
  | .apply g p => by
    have hatom : (Expr.apply g p.tree).isAtom = true := rfl
    rw [Factor.tree, Factor.keys, Expr.unparseFactors, Expr.unparseFactors, List.append_nil,
      if_pos hatom, Expr.unparse, p.unparse_tree]
  | .constant c => rfl
  | .numeral n h => by
    rw [Factor.tree, Factor.keys, Expr.unparseFactors, Expr.unparseFactors, List.append_nil,
      if_pos (isAtom_numeralTree n), unparse_numeralTree]

end

end Grammar

/-- **Parsing loses nothing**: from the tree of any keys that are parsed the keys can be written
again, so no other keys have the same tree. -/
theorem unparse_of_ofKeys {V : Type} {keys : List (Key V)} {e : Expr V}
    (h : Expr.ofKeys keys = .ok e) :
    e.unparse = keys ∧ ∀ keys' : List (Key V), Expr.ofKeys keys' = .ok e → keys' = keys := by
  have hwrite {ks : List (Key V)} (hks : Expr.ofKeys ks = .ok e) : e.unparse = ks := by
    obtain ⟨δ, rfl, rfl⟩ := Grammar.exists_phrase_of_ofKeys hks
    exact δ.unparse_tree
  exact ⟨hwrite h, fun keys' h' => (hwrite h').symm.trans (hwrite h)⟩

/-- A product of factors with and without brackets is written as it was typed. -/
theorem unparse_of_ofKeys_product :
    let keys : List (Key Unit) := [.digit 2, .opening, .digit 3, .operator .plus, .digit 1, .digit 0,
      .closing, .function .sin, .opening, .constant .pi, .closing]
    let e : Expr Unit := .group [.leaf (.digit 2),
      .binary .add (.group [.leaf (.digit 3)]) (.group [.number [some 1, some 0]]),
      .apply .sin (.group [.leaf (.constant .pi)])]
    Expr.ofKeys keys = .ok e ∧ e.unparse = keys ∧
      ∀ keys' : List (Key Unit), Expr.ofKeys keys' = .ok e → keys' = keys := by
  intro keys e
  have h : Expr.ofKeys keys = .ok e := by
    let three : Grammar.Factor Unit true := .numeral [some 3] nofun
    let ten : Grammar.Factor Unit true := .numeral [some 1, some 0] nofun
    let pi : Grammar.Factor Unit false := .constant .pi
    let sum : Grammar.Phrase Unit .low :=
      .binary (.operand (three.operand .low)) .add rfl (ten.operand .low)
    let sine : Grammar.Factor Unit false := .apply .sin (.operand (pi.operand .low))
    let fs : Grammar.Factors Unit false :=
      .snoc (.snoc (.single (.numeral [some 2] nofun)) (.bracketed sum) rfl) sine rfl
    exact Grammar.ofKeys_of_weight_le (.operand (fs.operand .low)) (by decide)
  exact ⟨h, unparse_of_ofKeys h⟩

end Keypad
