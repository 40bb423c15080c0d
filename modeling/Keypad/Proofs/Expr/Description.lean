import Keypad.Proofs.Expr.Explicit
import Keypad.Proofs.Grammar.Longest
import Keypad.Proofs.Lexeme.Spells
import Keypad.Session

/-! # Reading descriptions back

The description of a parsed expression is a text that can be read and parsed again. It spells a
single factor, whose tree is the explicit form of the expression: each operation and each product
comes back from the brackets around it, and a numeral or a constant stands for itself. -/

namespace Keypad

open Grammar Lexeme

namespace Expr

variable {V : Type} {answer : V}

/-! ## Descriptions that spell a factor -/

/-- The description of an expression **reads back** if it spells a factor whose tree is the explicit
form of the expression. -/
def ReadsBack (answer : V) (e : Expr V) : Prop :=
  ∃ (b : Bool) (f : Factor V b), f.tree = e.explicit ∧
    ∀ rest, NoExponent rest → Spells answer e.describe.toList rest f.keys

/-- The descriptions of some factors read back as their product. -/
def ReadsBackProduct (answer : V) (es : List (Expr V)) : Prop :=
  ∃ p : Phrase V .middle, p.tree = product (explicitAll es) ∧
    ∀ rest, NoExponent rest →
      Spells answer (String.intercalate "*" (describeAll es)).toList rest p.keys

/-- A closing bracket is no exponent. -/
theorem noExponent_closing (rest : List Char) : NoExponent (')' :: rest) :=
  noExponent_cons rfl (by decide)

/-- No operator begins an exponent. -/
theorem noExponent_operator (o : Operator) (rest : List Char) :
    NoExponent (o.text.toList ++ rest) := by
  cases o <;> exact noExponent_cons rfl (by decide)

/-- What is written in brackets reads back as a phrase in brackets. -/
theorem readsBack_of_phrase {t : Tier} (p : Phrase V t) {e : Expr V} {w : List Char}
    (htree : p.tree = e.explicit) (htext : e.describe.toList = '(' :: (w ++ [')']))
    (hspells : ∀ rest, Spells answer w (')' :: rest) p.keys) : ReadsBack answer e := by
  refine ⟨false, .bracketed p.toLow, p.tree_toLow.trans htree, fun rest _ => ?_⟩
  rw [htext, Factor.keys, p.keys_toLow]
  exact (spells_opening _).append ((hspells rest).append (spells_closing rest))

/-- A binary operation reads back if both operands do: the description puts each of them in
brackets. -/
theorem ReadsBack.binary {lhs rhs : Expr V} (op : BinaryOp) (hlhs : ReadsBack answer lhs)
    (hrhs : ReadsBack answer rhs) : ReadsBack answer (.binary op lhs rhs) := by
  obtain ⟨_, f, hf, hspells⟩ := hlhs
  obtain ⟨_, g, hg, hspells'⟩ := hrhs
  -- factors are operands of every tier, so brackets around them are not needed
  refine readsBack_of_phrase (.binary (.operand (f.operand op.tier)) op rfl (g.operand op.tier))
    (w := lhs.describe.toList ++ (op.text.toList ++ rhs.describe.toList)) ?_ ?_ fun rest => ?_
  · rw [Phrase.tree, Phrase.tree, f.tree_operand, g.tree_operand, hf, hg, explicit]
  · show ("(" ++ lhs.describe ++ op.text ++ rhs.describe ++ ")").toList = _
    simp
  · rw [Phrase.keys, Phrase.keys, f.keys_operand, g.keys_operand]
    refine (hspells _ ?_).append ((spells_operator op.operator _).append
      (hspells' _ (noExponent_closing rest)))
    rw [List.append_assoc]
    exact noExponent_operator _ _

/-- A leading operation reads back if its operand does. -/
theorem ReadsBack.leading {rhs : Expr V} (op : PrefixOp) (hrhs : ReadsBack answer rhs) :
    ReadsBack answer (.leading op rhs) := by
  obtain ⟨_, g, hg, hspells⟩ := hrhs
  refine readsBack_of_phrase (.leading op rfl (g.operand op.tier))
    (w := op.text.toList ++ rhs.describe.toList) ?_ ?_ fun rest => ?_
  · rw [Phrase.tree, g.tree_operand, hg, explicit]
  · show ("(" ++ op.text ++ rhs.describe ++ ")").toList = _
    simp
  · rw [Phrase.keys, g.keys_operand]
    exact (spells_operator op.operator _).append (hspells _ (noExponent_closing rest))

/-- A trailing operation reads back if its operand does. -/
theorem ReadsBack.trailing {lhs : Expr V} (op : PostfixOp) (hlhs : ReadsBack answer lhs) :
    ReadsBack answer (.trailing op lhs) := by
  obtain ⟨_, f, hf, hspells⟩ := hlhs
  refine readsBack_of_phrase (.trailing (.operand (f.operand op.tier)) op rfl)
    (w := lhs.describe.toList ++ op.text.toList) ?_ ?_ fun rest => ?_
  · rw [Phrase.tree, Phrase.tree, f.tree_operand, hf, explicit]
  · show ("(" ++ lhs.describe ++ op.text ++ ")").toList = _
    simp
  · rw [Phrase.keys, Phrase.keys, f.keys_operand]
    exact (hspells _ (noExponent_operator _ _)).append (spells_operator op.operator _)

/-- An application reads back if its argument does. -/
theorem ReadsBack.apply {arg : Expr V} (f : Function) (harg : ReadsBack answer arg) :
    ReadsBack answer (.apply f arg) := by
  obtain ⟨_, g, hg, hspells⟩ := harg
  refine ⟨false, .apply f (.operand (g.operand .low)), ?_, fun rest _ => ?_⟩
  · rw [Factor.tree, Phrase.tree, g.tree_operand, hg, explicit]
  · -- the name, a bracket, the description of the argument and a bracket
    have htext : (Expr.apply f arg).describe.toList =
        f.text.toList ++ (['('] ++ (arg.describe.toList ++ [')'])) := by
      show (f.text ++ "(" ++ arg.describe ++ ")").toList = _
      simp
    have hkeys : (Factor.apply f (.operand (g.operand .low))).keys =
        [.function f] ++ ([.opening] ++ (g.keys ++ [.closing])) := by
      rw [Factor.keys, Phrase.keys, g.keys_operand]
      rfl
    rw [htext, hkeys]
    exact (spells_function f _).append ((spells_opening _).append
      ((hspells _ (noExponent_closing rest)).append (spells_closing rest)))

/-- A group reads back if its factors do as their product. -/
theorem ReadsBackProduct.group {es : List (Expr V)} (hes : ReadsBackProduct answer es) :
    ReadsBack answer (.group es) := by
  obtain ⟨p, hp, hspells⟩ := hes
  refine readsBack_of_phrase p (w := (String.intercalate "*" (describeAll es)).toList) ?_ ?_
    fun rest => hspells _ (noExponent_closing rest)
  · rw [hp, explicit]
  · show ("(" ++ String.intercalate "*" (describeAll es) ++ ")").toList = _
    rw [String.toList_append, String.toList_append, List.append_assoc]
    rfl

/-- One factor is its own product. -/
theorem readsBackProduct_singleton {e : Expr V} (he : ReadsBack answer e) :
    ReadsBackProduct answer [e] := by
  obtain ⟨_, f, hf, hspells⟩ := he
  refine ⟨.operand (f.operand .middle), ?_, fun rest hrest => ?_⟩
  · rw [Phrase.tree, f.tree_operand, hf]
    rfl
  · rw [describeAll, describeAll, String.intercalate_singleton, Phrase.keys, f.keys_operand]
    exact hspells rest hrest

/-- The asterisk before a further factor is read as the sign of a product. -/
theorem ReadsBackProduct.append {es : List (Expr V)} {e : Expr V} (hes : ReadsBackProduct answer es)
    (hne : es ≠ []) (he : ReadsBack answer e) : ReadsBackProduct answer (es ++ [e]) := by
  obtain ⟨p, hp, hspells⟩ := hes
  obtain ⟨_, f, hf, hspells'⟩ := he
  refine ⟨.binary p .multiply rfl (f.operand .middle), ?_, fun rest hrest => ?_⟩
  · show Expr.binary .multiply p.tree (f.operand .middle).tree = _
    rw [f.tree_operand, hp, hf, explicitAll_append, explicitAll, explicitAll, product_append]
    cases es with
    | nil => exact absurd rfl hne
    | cons e' es => exact List.cons_ne_nil _ _
  · -- the factors before, an asterisk and the description of the last factor
    have htext : (String.intercalate "*" (describeAll (es ++ [e]))).toList =
        (String.intercalate "*" (describeAll es)).toList ++ (['*'] ++ e.describe.toList) := by
      rw [describeAll_eq_map, describeAll_eq_map, List.map_append,
        String.intercalate_append_of_ne_nil (by simpa using hne) (by simp)]
      simp
    show Spells answer _ rest (p.keys ++ ([.operator .times] ++ (f.operand .middle).keys))
    rw [htext, f.keys_operand]
    exact (hspells _ (noExponent_cons rfl (by decide))).append
      ((spells_asterisk _).append (hspells' rest hrest))

/-- A decimal digit is written as one character. -/
theorem toList_repr_digit {d : Nat} (hd : d ≤ 9) : d.repr.toList = [Nat.digitChar d] := by
  rw [Nat.repr, String.toList_ofList, Nat.toDigits_of_lt_base (Nat.lt_succ_of_le hd)]

/-- The text of a decimal numeral has one character for each of its keys. -/
theorem toList_text {n : Numeral} (hn : IsDecimal n) : n.text.toList = n.map numeralChar := by
  induction n with
  | nil => rfl
  | cons k n ih =>
    obtain ⟨hk, hn⟩ := isDecimal_cons hn
    rw [Numeral.text, List.map_cons, String.join_cons, String.toList_append, ← Numeral.text, ih hn,
      List.map_cons]
    cases k with
    | none => rfl
    | some d =>
      dsimp only
      rw [toList_repr_digit (hk d rfl)]
      rfl

/-- The description of a numeral shows its digits and points. -/
theorem toList_describe_numeralTree {n : Numeral} (hn : IsDecimal n) :
    (numeralTree n : Expr V).describe.toList = n.map numeralChar := by
  match n, hn with
  | [], _ => rfl
  | [none], _ =>
    show ".".toList = ['.']
    rfl
  | [some d], hn =>
    have hd : d ≤ 9 := hn d List.mem_cons_self
    show (digitText d).toList = [Nat.digitChar d]
    rw [digitText, if_pos hd, toList_repr_digit hd]
  | some d :: k :: n, hn => exact toList_text hn
  | none :: k :: n, hn => exact toList_text hn

/-- A decimal numeral stands for itself. -/
theorem readsBack_numeral {n : Numeral} (hne : n ≠ []) (hn : IsDecimal n) :
    ReadsBack answer (numeralTree n) := by
  refine ⟨true, .numeral n hne, ?_, fun rest hrest => ?_⟩
  · show numeralTree n = _
    fun_cases numeralTree n <;> rfl
  · rw [toList_describe_numeralTree hn]
    exact spells_numeral hn hrest

/-- A constant reads back; an answer key only if it carries the answer. -/
theorem readsBack_constant (c : Constant V) (hc : ∀ v, c = .answer v → v = answer) :
    ReadsBack answer (.leaf (.constant c)) :=
  ⟨false, .constant c, rfl, fun rest _ => spells_constant c hc rest⟩

end Expr

/-! ## Descriptions of phrases -/

namespace Grammar

variable {V : Type} {answer : V}

/-- Keys that are **typable** have decimal digits only, and their answer keys carry the answer. -/
def Typable (answer : V) (ks : List (Key V)) : Prop :=
  (∀ d, Key.digit d ∈ ks → d ≤ 9) ∧ ∀ v, Key.constant (.answer v) ∈ ks → v = answer

/-- Fewer keys are typable as well. -/
theorem Typable.mono {ks ks' : List (Key V)} (h : Typable answer ks) (hsub : ks' ⊆ ks) :
    Typable answer ks' :=
  ⟨fun d hd => h.1 d (hsub hd), fun v hv => h.2 v (hsub hv)⟩

/-- A numeral of typable keys is decimal. -/
theorem isDecimal_of_typable {n : Numeral} (h : Typable answer (Numeral.keys n)) : IsDecimal n :=
  fun d hd => h.1 d (List.mem_map.2 ⟨some d, hd, rfl⟩)

mutual

/-- **Descriptions read back**: that of a phrase of typable keys spells a factor with the explicit
form of its tree. -/
theorem Phrase.readsBack {t : Tier} : (δ : Phrase V t) → Typable answer δ.keys →
    Expr.ReadsBack answer δ.tree
  | .operand ω, h => ω.readsBack h
  | .binary lhs op _ rhs, h => by
    have hrhs := rhs.readsBack (h.mono fun k hk => List.mem_append_right _ (.tail _ hk))
    exact (lhs.readsBack (h.mono fun k => List.mem_append_left _)).binary op hrhs
  | .leading op _ rhs, h => (rhs.readsBack (h.mono fun k => .tail _)).leading op
  | .trailing lhs op _, h => (lhs.readsBack (h.mono fun k => List.mem_append_left _)).trailing op

/-- Typable operands read back, as the phrase or the factors that they are. -/
theorem Operand.readsBack {t : Tier} : (ω : Operand V t) → Typable answer ω.keys →
    Expr.ReadsBack answer ω.tree
  | .middle p, h => p.readsBack h
  | .high p, h => p.readsBack h
  | .factors fs, h => (fs.readsBack h).group

/-- Typable factors read back as their product. -/
theorem Factors.readsBack {b : Bool} : (fs : Factors V b) → Typable answer fs.keys →
    Expr.ReadsBackProduct answer fs.trees
  | .single f, h => Expr.readsBackProduct_singleton (f.readsBack h)
  | .snoc fs f _, h => by
    have hf := f.readsBack (h.mono fun k => List.mem_append_right _)
    exact (fs.readsBack (h.mono fun k => List.mem_append_left _)).append fs.trees_ne_nil hf

/-- Typable factors read back one by one. -/
theorem Factor.readsBack {b : Bool} : (f : Factor V b) → Typable answer f.keys →
    Expr.ReadsBack answer f.tree
  | .bracketed p, h =>
    p.readsBack (h.mono fun k hk => .tail _ (List.mem_append_left _ hk))
  | .apply g p, h => by
    have hp := p.readsBack (h.mono fun k hk => .tail _ (.tail _ (List.mem_append_left _ hk)))
    exact hp.apply g
  | .constant c, h => Expr.readsBack_constant c fun v hv => h.2 v (hv ▸ List.mem_singleton_self _)
  | .numeral n hne, h => Expr.readsBack_numeral hne (isDecimal_of_typable h)

end

end Grammar

/-- **Reading a description back** gives the same expression, in its explicit form: the description
of what typable keys are parsed as is read as keys again, and unless their nesting is exceeded these
are parsed as a group of the explicit form. In every arithmetic where one is neutral from the left
its value is that of the expression itself. -/
theorem parse_read_describe {V : Type} (s : Session V) {keys : List (Key V)} {e : Expr V}
    (hdigits : ∀ d, Key.digit d ∈ keys → d ≤ 9)
    (hanswers : ∀ v, Key.constant (.answer v) ∈ keys → v = s.answer)
    (h : Expr.ofKeys keys = .ok e) :
    (∃ keys', s.read e.describe = .ok keys' ∧
      ((∃ err, Grammar.parse keys' = .error err ∧ err.kind = .tooDeep) ∨
        Expr.ofKeys keys' = .ok (.group [e.explicit]))) ∧
    ∀ _ : Arithmetic V, (∀ x : V, Arithmetic.multiply Arithmetic.one x = x) →
      (Expr.group [e.explicit]).eval = e.eval := by
  constructor
  · obtain ⟨δ, rfl, rfl⟩ := exists_phrase_of_ofKeys h
    obtain ⟨b, f, hf, hspells⟩ := δ.readsBack ⟨hdigits, hanswers⟩
    -- the description is a single factor, and so a phrase of the loosest tier
    have hparse := ofKeys_phrase (Phrase.operand (f.operand .low))
    rw [Phrase.keys, Phrase.tree, f.keys_operand, f.tree_operand, hf] at hparse
    exact ⟨f.keys, (hspells [] noExponent_nil).read, hparse⟩
  · intro _ hone
    rw [Expr.eval_group_singleton hone, Expr.eval_explicit hone]

/-- A product with an answer in brackets is described and read back. -/
theorem parse_read_describe_product :
    let s : Session Nat := ⟨7⟩
    let keys : List (Key Nat) := [.digit 2, .opening, .digit 3, .operator .plus,
      .constant (.answer 7), .closing]
    let e : Expr Nat := .group [.leaf (.digit 2),
      .binary .add (.group [.leaf (.digit 3)]) (.group [.leaf (.constant (.answer 7))])]
    Expr.ofKeys keys = .ok e ∧
      (∃ keys', s.read e.describe = .ok keys' ∧
        ((∃ err, Grammar.parse keys' = .error err ∧ err.kind = .tooDeep) ∨
          Expr.ofKeys keys' = .ok (.group [e.explicit]))) ∧
      ∀ _ : Arithmetic Nat, (∀ x : Nat, Arithmetic.multiply Arithmetic.one x = x) →
        (Expr.group [e.explicit]).eval = e.eval := by
  intro s keys e
  have h : Expr.ofKeys keys = .ok e := by
    let three : Factor Nat true := .numeral [some 3] nofun
    let answer : Factor Nat false := .constant (.answer 7)
    let sum : Phrase Nat .low :=
      .binary (.operand (three.operand .low)) .add rfl (answer.operand .low)
    let fs : Factors Nat false := .snoc (.single (.numeral [some 2] nofun)) (.bracketed sum) rfl
    exact ofKeys_of_weight_le (.operand (fs.operand .low)) (by decide)
  have hdigits : ∀ d, Key.digit d ∈ keys → d ≤ 9 := by simp [keys]
  have hanswers : ∀ v, Key.constant (.answer v) ∈ keys → v = s.answer := by simp [keys, s]
  exact ⟨h, parse_read_describe s hdigits hanswers h⟩

end Keypad
