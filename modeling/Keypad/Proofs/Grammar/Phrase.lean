import Keypad.Grammar

/-! # Phrases

The grammar of key sequences in typing order, told by its derivations. A **phrase** of a tier is an
operand of that tier, an operation on a phrase and an operand, a leading operation on an operand, or
a trailing operation on a phrase. The operands of a tier are the phrases of the next tighter one, and
those of the tightest tier are factors next to each other. A phrase spells some keys and stands for
the tree that the grammar builds for them, in which brackets leave no mark. -/

namespace Keypad

/-- The key that writes a digit or the point of a numeral. -/
def Numeral.key {V : Type} : Option Nat → Key V
  | some d => .digit d
  | none => .point

/-- The keys that write a numeral. -/
def Numeral.keys {V : Type} (n : Numeral) : List (Key V) := n.map Numeral.key

namespace Grammar

mutual

/-- The **phrases** of a tier. -/
inductive Phrase (V : Type) : Tier → Type
  /-- An operand alone. -/
  | operand {t : Tier} (ω : Operand V t) : Phrase V t
  /-- A phrase, a binary operator of the tier and an operand. -/
  | binary {t : Tier} (lhs : Phrase V t) (op : BinaryOp) (h : op.tier = t) (rhs : Operand V t) :
      Phrase V t
  /-- A leading operator of the tier and an operand. -/
  | leading {t : Tier} (op : PrefixOp) (h : op.tier = t) (rhs : Operand V t) : Phrase V t
  /-- A phrase and a trailing operator of the tier. -/
  | trailing {t : Tier} (lhs : Phrase V t) (op : PostfixOp) (h : op.tier = t) : Phrase V t

/-- The **operands** of a tier. -/
inductive Operand (V : Type) : Tier → Type
  | middle (p : Phrase V .middle) : Operand V .low
  | high (p : Phrase V .high) : Operand V .middle
  | factors {b : Bool} (fs : Factors V b) : Operand V .high

/-- **Factors** next to each other. The index tells whether the last one is a numeral; numerals
never stand next to each other, because their keys would be one numeral. -/
inductive Factors (V : Type) : Bool → Type
  | single {b : Bool} (f : Factor V b) : Factors V b
  | snoc {a b : Bool} (fs : Factors V a) (f : Factor V b) (h : (a && b) = false) : Factors V b

/-- A single **factor**. The index tells whether it is a numeral. -/
inductive Factor (V : Type) : Bool → Type
  /-- A phrase in brackets. -/
  | bracketed (p : Phrase V .low) : Factor V false
  /-- A function of a phrase in brackets. -/
  | apply (f : Function) (p : Phrase V .low) : Factor V false
  | constant (c : Constant V) : Factor V false
  /-- A run of one or more digits and points. -/
  | numeral (n : Numeral) (h : n ≠ []) : Factor V true

end

variable {V : Type}

/-! ## The keys of a phrase -/

mutual

/-- The **keys** that a phrase spells. -/
def Phrase.keys {t : Tier} : Phrase V t → List (Key V)
  | .operand ω => ω.keys
  | .binary lhs op _ rhs => lhs.keys ++ .operator op.operator :: rhs.keys
  | .leading op _ rhs => .operator op.operator :: rhs.keys
  | .trailing lhs op _ => lhs.keys ++ [.operator op.operator]

/-- The keys that an operand spells. -/
def Operand.keys {t : Tier} : Operand V t → List (Key V)
  | .middle p => p.keys
  | .high p => p.keys
  | .factors fs => fs.keys

/-- The keys that some factors spell. -/
def Factors.keys {b : Bool} : Factors V b → List (Key V)
  | .single f => f.keys
  | .snoc fs f _ => fs.keys ++ f.keys

/-- The keys that a factor spells. -/
def Factor.keys {b : Bool} : Factor V b → List (Key V)
  | .bracketed p => .opening :: p.keys ++ [.closing]
  | .apply f p => .function f :: .opening :: p.keys ++ [.closing]
  | .constant c => [.constant c]
  | .numeral n _ => Numeral.keys n

end

/-! ## The tree of a phrase -/

/-- The tree of a numeral: a single key is a leaf. -/
def numeralTree : Numeral → Expr V
  | [some d] => .leaf (.digit d)
  | [none] => .leaf .point
  | n => .number n

mutual

/-- The **tree** that a phrase stands for. -/
def Phrase.tree {t : Tier} : Phrase V t → Expr V
  | .operand ω => ω.tree
  | .binary lhs op _ rhs => .binary op lhs.tree rhs.tree
  | .leading op _ rhs => .leading op rhs.tree
  | .trailing lhs op _ => .trailing op lhs.tree

/-- The tree that an operand stands for. -/
def Operand.tree {t : Tier} : Operand V t → Expr V
  | .middle p => p.tree
  | .high p => p.tree
  | .factors fs => .group fs.trees

/-- The trees that some factors stand for, in typing order. -/
def Factors.trees {b : Bool} : Factors V b → List (Expr V)
  | .single f => [f.tree]
  | .snoc fs f _ => fs.trees ++ [f.tree]

/-- The tree that a factor stands for. -/
def Factor.tree {b : Bool} : Factor V b → Expr V
  | .bracketed p => p.tree
  | .apply f p => .apply f p.tree
  | .constant c => .leaf (.constant c)
  | .numeral n _ => numeralTree n

end

/-! ## Phrases of wider tiers -/

/-- Factors as an operand of any tier. -/
def Factors.operand {b : Bool} (fs : Factors V b) : (t : Tier) → Operand V t
  | .low => .middle (.operand (.high (.operand (.factors fs))))
  | .middle => .high (.operand (.factors fs))
  | .high => .factors fs

/-- Factors have the same keys as an operand of any tier. -/
@[simp] theorem Factors.keys_operand {b : Bool} (fs : Factors V b) (t : Tier) :
    (fs.operand t).keys = fs.keys := by
  cases t <;> rfl

/-- Factors as an operand of any tier are the group of them. -/
@[simp] theorem Factors.tree_operand {b : Bool} (fs : Factors V b) (t : Tier) :
    (fs.operand t).tree = .group fs.trees := by
  cases t <;> rfl

/-- A factor as an operand of any tier. -/
def Factor.operand {b : Bool} (f : Factor V b) (t : Tier) : Operand V t :=
  (Factors.single f).operand t

/-- A factor has the same keys as an operand of any tier. -/
@[simp] theorem Factor.keys_operand {b : Bool} (f : Factor V b) (t : Tier) :
    (f.operand t).keys = f.keys :=
  (Factors.single f).keys_operand t

/-- A factor as an operand of any tier is a group of one. -/
@[simp] theorem Factor.tree_operand {b : Bool} (f : Factor V b) (t : Tier) :
    (f.operand t).tree = .group [f.tree] :=
  (Factors.single f).tree_operand t

/-- A phrase as a phrase of the loosest tier. -/
def Phrase.toLow : {t : Tier} → Phrase V t → Phrase V .low
  | .low, p => p
  | .middle, p => .operand (.middle p)
  | .high, p => .operand (.middle (.operand (.high p)))

/-- A phrase of a tighter tier has the same keys as one of the loosest. -/
@[simp] theorem Phrase.keys_toLow {t : Tier} (p : Phrase V t) : p.toLow.keys = p.keys := by
  cases t <;> rfl

/-- A phrase of a tighter tier has the same tree as one of the loosest. -/
@[simp] theorem Phrase.tree_toLow {t : Tier} (p : Phrase V t) : p.toLow.tree = p.tree := by
  cases t <;> rfl

/-- A phrase with an operand added to it. -/
def Phrase.plus (lhs : Phrase V .low) (rhs : Operand V .low) : Phrase V .low :=
  .binary lhs .add rfl rhs

/-! ## The last key of a factor -/

/-- The **last key** of a factor, by whether the factor is a numeral. -/
inductive EndsFactor : Bool → Key V → Prop
  | closing : EndsFactor false .closing
  | constant (c : Constant V) : EndsFactor false (.constant c)
  | numeral (c : Option Nat) : EndsFactor true (Numeral.key c)

/-- A factor has a last key, which tells whether it is a numeral. -/
theorem Factor.keys_eq_append {b : Bool} (f : Factor V b) :
    ∃ us k, f.keys = us ++ [k] ∧ EndsFactor b k := by
  cases f with
  | bracketed p => exact ⟨.opening :: p.keys, .closing, rfl, .closing⟩
  | apply g p => exact ⟨.function g :: .opening :: p.keys, .closing, rfl, .closing⟩
  | constant c => exact ⟨[], .constant c, rfl, .constant c⟩
  | numeral n h =>
    refine ⟨n.dropLast.map Numeral.key, Numeral.key (n.getLast h), ?_, .numeral _⟩
    rw [Factor.keys, Numeral.keys, ← List.map_singleton, ← List.map_append,
      List.dropLast_concat_getLast]

/-- So have factors: the last key of the last one. -/
theorem Factors.keys_eq_append {b : Bool} (fs : Factors V b) :
    ∃ us k, fs.keys = us ++ [k] ∧ EndsFactor b k := by
  cases fs with
  | single f => exact f.keys_eq_append
  | snoc fs f h =>
    obtain ⟨us, k, hf, hk⟩ := f.keys_eq_append
    exact ⟨fs.keys ++ us, k, by rw [Factors.keys, hf, List.append_assoc], hk⟩

end Grammar

end Keypad
