import Keypad.Proofs.Grammar.Longest
import Mathlib

/-! # The keys that a description shows

A description writes down the keys that were typed, in their order. What it adds are brackets and an
asterisk between factors, and of the keys only brackets may be missing. A digit is shown like the key
itself as long as it stands alone; the digits of a numeral of several keys are written in decimal,
which is another text than that of the key if the digit is above nine. -/

namespace Keypad

variable {V : Type}

/-! ## Texts without marks -/

/-- The **brackets**, whatever they enclose. -/
def isBracket (c : Char) : Bool := c == '(' || c == ')'

/-- The **marks** of a description: brackets, and the asterisk of an implicit product. -/
def isMark (c : Char) : Bool := isBracket c || c == '*'

/-- The characters of a text that are no marks. -/
def unmarked (text : String) : List Char := text.toList.filter fun c => !isMark c

/-- The characters of a text that are no brackets. -/
def unbracketed (text : String) : List Char := text.toList.filter fun c => !isBracket c

/-- Leaving out the marks respects joining texts. -/
@[simp] theorem unmarked_append (s t : String) : unmarked (s ++ t) = unmarked s ++ unmarked t := by
  rw [unmarked, String.toList_append, List.filter_append, ← unmarked, ← unmarked]

/-- So does leaving out the brackets. -/
@[simp] theorem unbracketed_append (s t : String) :
    unbracketed (s ++ t) = unbracketed s ++ unbracketed t := by
  rw [unbracketed, String.toList_append, List.filter_append, ← unbracketed, ← unbracketed]

/-- An opening bracket is a mark. -/
@[simp] theorem unmarked_opening : unmarked "(" = [] := rfl

/-- A closing bracket is a mark. -/
@[simp] theorem unmarked_closing : unmarked ")" = [] := rfl

/-- The asterisk of a product is a mark. -/
@[simp] theorem unmarked_asterisk : unmarked "*" = [] := rfl

/-- Asterisks between texts leave nothing behind. -/
theorem unmarked_intercalate (texts : List String) :
    unmarked (String.intercalate "*" texts) = texts.flatMap unmarked := by
  induction texts with
  | nil => rfl
  | cons s texts ih =>
    cases texts with
    | nil => rw [String.intercalate_singleton, List.flatMap_singleton]
    | cons t texts =>
      rw [String.intercalate_cons_cons, unmarked_append, unmarked_append, unmarked_asterisk, ih,
        List.append_nil, List.flatMap_cons (x := s)]

namespace Key

/-! ## Keys in a description -/

/-- Digits and the point are the **figures** of numerals. -/
def isFigure : Key V → Bool
  | .digit _ => true
  | .point => true
  | _ => false

/-- Every key but a digit above nine is **decimal**. -/
def isDecimal : Key V → Bool
  | .digit d => d ≤ 9
  | _ => true

/-- The text of a key in a description. A digit **beside** another figure is written in decimal. -/
def described (beside : Bool) : Key V → String
  | .digit d => if beside then d.repr else digitText d
  | k => k.text

/-- The texts of keys in a description without its marks; `left` tells whether there is a figure to
the left of them. -/
def describedOf (left : Bool) : List (Key V) → List Char
  | [] => []
  | k :: ks => unmarked (k.described (left || ks.head?.any isFigure)) ++ describedOf k.isFigure ks

/-- Only figures may be described otherwise than shown. -/
theorem described_of_not_isFigure {k : Key V} (h : k.isFigure = false) (beside : Bool) :
    k.described beside = k.text := by
  cases k with
  | digit d => cases h
  | _ => rfl

/-- A key that is no figure separates what stands on both sides of it. -/
theorem describedOf_append_cons {k : Key V} (h : k.isFigure = false) (left : Bool)
    (us vs : List (Key V)) :
    describedOf left (us ++ k :: vs) = describedOf left us ++ unmarked k.text ++ describedOf false vs := by
  induction us generalizing left with
  | nil =>
    rw [List.nil_append, describedOf, List.nil_append, describedOf, described_of_not_isFigure h, h]
  | cons u us ih =>
    have hhead : (us ++ k :: vs).head?.any isFigure = us.head?.any isFigure := by
      cases us with
      | nil => exact h
      | cons u' us => rfl
    rw [List.cons_append, describedOf, hhead, ih, describedOf, List.append_assoc, List.append_assoc,
      List.append_assoc]

/-- A key that is no figure is described apart from what follows it. -/
theorem describedOf_cons {k : Key V} (h : k.isFigure = false) (ks : List (Key V)) :
    describedOf false (k :: ks) = unmarked k.text ++ describedOf false ks :=
  describedOf_append_cons h false [] ks

/-- A key that is no figure is described apart from what stands before it. -/
theorem describedOf_concat {k : Key V} (h : k.isFigure = false) (ks : List (Key V)) :
    describedOf false (ks ++ [k]) = describedOf false ks ++ unmarked k.text := by
  rw [describedOf_append_cons h, describedOf, List.append_nil]

end Key

/-! ## The description of a phrase -/

/-- The keys of numerals are figures. -/
theorem isFigure_key (c : Option Nat) : (Numeral.key c : Key V).isFigure = true := by
  cases c <;> rfl

/-- In the text of a numeral each figure is described as one beside others. -/
theorem Numeral.text_cons (c : Option Nat) (n : Numeral) :
    Numeral.text (c :: n) = (Numeral.key c : Key V).described true ++ Numeral.text n := by
  rw [Numeral.text, List.map_cons, String.join_cons, ← Numeral.text]
  cases c <;> rfl

/-- To the right of a figure a numeral is described by its text. -/
theorem describedOf_numeral (n : Numeral) :
    Key.describedOf true (Numeral.keys n : List (Key V)) = unmarked n.text := by
  induction n with
  | nil => rfl
  | cons c n ih =>
    rw [Numeral.text_cons (V := V), unmarked_append, ← ih, Numeral.keys, List.map_cons,
      Key.describedOf, Bool.true_or, isFigure_key, ← Numeral.keys]

namespace Grammar

/-- A numeral that stands by itself is described as its tree, which is a leaf if it has one key. -/
theorem describedOf_numeralTree {n : Numeral} (hn : n ≠ []) :
    Key.describedOf false (Numeral.keys n : List (Key V)) =
      unmarked (numeralTree n : Expr V).describe := by
  obtain ⟨c, n, rfl⟩ := List.exists_cons_of_ne_nil hn
  cases n with
  | nil =>
    -- a single figure is a leaf, and shown as the key is
    cases c with
    | none => exact List.append_nil _
    | some d => exact List.append_nil _
  | cons c' n =>
    have htree : (numeralTree (c :: c' :: n) : Expr V) = .number (c :: c' :: n) := by
      cases c <;> rfl
    rw [htree, Expr.describe, Numeral.text_cons (V := V), unmarked_append,
      ← describedOf_numeral (V := V), Numeral.keys, List.map_cons, Key.describedOf, isFigure_key,
      Numeral.keys, List.map_cons, List.head?_cons, Option.any_some, isFigure_key, Bool.or_true]

/-- A factor that is no numeral begins with a key that is no figure. -/
theorem Factor.exists_keys_eq_cons (f : Factor V false) :
    ∃ k ks, f.keys = k :: ks ∧ k.isFigure = false := by
  cases f with
  | bracketed p => exact ⟨_, _, rfl, rfl⟩
  | apply g p => exact ⟨_, _, rfl, rfl⟩
  | constant c => exact ⟨_, _, rfl, rfl⟩

/-- What a factor ends with tells whether it is a numeral. -/
theorem EndsFactor.isFigure_eq {b : Bool} {k : Key V} (h : EndsFactor b k) : k.isFigure = b := by
  cases h with
  | closing => rfl
  | constant c => rfl
  | numeral c => exact isFigure_key c

/-- Factors next to each other are described one after the other, because no two of them are
numerals. -/
theorem describedOf_factors {a b : Bool} (fs : Factors V a) (f : Factor V b)
    (h : (a && b) = false) :
    Key.describedOf false (fs.keys ++ f.keys) =
      Key.describedOf false fs.keys ++ Key.describedOf false f.keys := by
  cases a with
  | false =>
    obtain ⟨us, k, hkeys, hk⟩ := fs.keys_eq_append
    rw [hkeys, List.append_assoc, List.singleton_append,
      Key.describedOf_append_cons hk.isFigure_eq, Key.describedOf_concat hk.isFigure_eq]
  | true =>
    obtain rfl : b = false := h
    obtain ⟨k, ks, hkeys, hk⟩ := f.exists_keys_eq_cons
    rw [hkeys, Key.describedOf_append_cons hk, Key.describedOf_cons hk, List.append_assoc]

/-- Brackets are marks, so they add nothing. -/
theorem describedOf_bracketed (ks : List (Key V)) :
    Key.describedOf false (.opening :: ks ++ [.closing]) = Key.describedOf false ks := by
  rw [List.cons_append, Key.describedOf_cons rfl, Key.describedOf_concat rfl]
  simp [Key.text]

mutual

/-- **The description of a phrase** shows its keys, marks apart. -/
theorem Phrase.describedOf_keys {t : Tier} : (δ : Phrase V t) →
    Key.describedOf false δ.keys = unmarked δ.tree.describe
  | .operand ω => ω.describedOf_keys
  | .binary lhs op _ rhs => by
    rw [Phrase.keys, Phrase.tree, Expr.describe, Key.describedOf_append_cons rfl,
      lhs.describedOf_keys, rhs.describedOf_keys]
    simp [Key.text, BinaryOp.text]
  | .leading op _ rhs => by
    rw [Phrase.keys, Phrase.tree, Expr.describe, Key.describedOf_cons rfl, rhs.describedOf_keys]
    simp [Key.text, PrefixOp.text]
  | .trailing lhs op _ => by
    rw [Phrase.keys, Phrase.tree, Expr.describe, Key.describedOf_concat rfl, lhs.describedOf_keys]
    simp [Key.text, PostfixOp.text]

/-- Operands are described as the phrase or the factors that they are. -/
theorem Operand.describedOf_keys {t : Tier} : (ω : Operand V t) →
    Key.describedOf false ω.keys = unmarked ω.tree.describe
  | .middle p => p.describedOf_keys
  | .high p => p.describedOf_keys
  | .factors fs => by
    rw [Operand.keys, Operand.tree, Expr.describe, fs.describedOf_keys]
    simp [unmarked_intercalate, List.flatMap_map]

/-- Factors are described one after the other: no two numerals are neighbours. -/
theorem Factors.describedOf_keys {b : Bool} : (fs : Factors V b) →
    Key.describedOf false fs.keys = fs.trees.flatMap fun e => unmarked e.describe
  | .single f => by
    rw [Factors.keys, Factors.trees, List.flatMap_singleton, f.describedOf_keys]
  | .snoc fs f h => by
    rw [Factors.keys, Factors.trees, List.flatMap_append, List.flatMap_singleton,
      describedOf_factors fs f h, fs.describedOf_keys, f.describedOf_keys]

/-- Factors are described by their keys, numerals as a whole. -/
theorem Factor.describedOf_keys {b : Bool} : (f : Factor V b) →
    Key.describedOf false f.keys = unmarked f.tree.describe
  | .bracketed p => by
    rw [Factor.keys, describedOf_bracketed, p.describedOf_keys, Factor.tree]
  | .apply g p => by
    rw [Factor.keys, List.cons_append, Key.describedOf_cons rfl, describedOf_bracketed,
      p.describedOf_keys, Factor.tree, Expr.describe]
    simp [Key.text]
  | .constant c => by
    rw [Factor.keys, Key.describedOf_cons rfl]
    exact List.append_nil _
  | .numeral n hn => describedOf_numeralTree hn

end

end Grammar

/-! ## Descriptions and display texts -/

/-- Without brackets the text of keys is still the texts of its keys. -/
theorem unbracketed_textOf (ks : List (Key V)) :
    unbracketed (Key.textOf ks) = ks.flatMap fun k => unbracketed k.text := by
  induction ks with
  | nil => rw [Key.textOf_nil]; rfl
  | cons k ks ih => rw [Key.textOf_cons, unbracketed_append, ih, List.flatMap_cons]

/-- No display text has an asterisk. -/
theorem unmarked_text (k : Key V) : unmarked k.text = unbracketed k.text := by
  -- the marks besides brackets are asterisks, and no text of a key has one
  have hdigit (d : Nat) : unmarked (digitText d) = unbracketed (digitText d) := by
    rw [digitText]
    split
    · next hd => interval_cases d <;> decide
    · decide
  have hconstant (c : Constant V) : unmarked c.text = unbracketed c.text := by
    cases c with
    | pi => exact (by decide : unmarked "π" = unbracketed "π")
    | e => exact (by decide : unmarked "e" = unbracketed "e")
    | i => exact (by decide : unmarked "i" = unbracketed "i")
    | answer v => exact (by decide : unmarked "Ans" = unbracketed "Ans")
  have hoperator (o : Operator) : unmarked o.text = unbracketed o.text := by
    cases o <;> decide
  have hfunction (f : Function) : unmarked f.text = unbracketed f.text := by
    cases f <;> decide
  cases k with
  | digit d => exact hdigit d
  | point => exact (by decide : unmarked "." = unbracketed ".")
  | constant c => exact hconstant c
  | operator o => exact hoperator o
  | opening => exact (by decide : unmarked "(" = unbracketed "(")
  | closing => exact (by decide : unmarked ")" = unbracketed ")")
  | function f => exact hfunction f

/-- A digit is no mark. -/
theorem isMark_of_isDigit {c : Char} (h : c.isDigit = true) : isMark c = false := by
  rw [isMark, isBracket]
  simp only [Bool.or_eq_false_iff, beq_eq_false_iff_ne]
  refine ⟨⟨?_, ?_⟩, ?_⟩ <;> rintro rfl <;> revert h <;> decide

/-- A number above nine takes more room than the text of its key. -/
theorem one_lt_length_unmarked_repr {d : Nat} (hd : 9 < d) : 1 < (unmarked d.repr).length := by
  have hdigits : unmarked d.repr = Nat.toDigits 10 d := by
    rw [unmarked, Nat.repr, String.toList_ofList, List.filter_eq_self]
    intro c hc
    rw [isMark_of_isDigit (Nat.isDigit_of_mem_toDigits (by decide) (by decide) hc), Bool.not_false]
  rw [hdigits]
  by_contra hle
  have := (Nat.length_toDigits_le_iff (by decide) one_pos).1 (not_lt.1 hle)
  omega

namespace Key

/-- A key that stands alone or is decimal is described by its display text. -/
theorem unmarked_described {k : Key V} {beside : Bool} (h : beside = true → k.isDecimal = true) :
    unmarked (k.described beside) = unbracketed k.text := by
  rw [← unmarked_text]
  cases k with
  | digit d =>
    cases beside with
    | false => rfl
    | true =>
      have hd : d ≤ 9 := of_decide_eq_true (h rfl)
      rw [described, text, digitText, if_pos rfl, if_pos hd]
  | _ => rfl

/-- Any other key takes more room in a description. -/
theorem length_lt_unmarked_described {k : Key V} {beside : Bool}
    (h : ¬ (beside = true → k.isDecimal = true)) :
    (unbracketed k.text).length < (unmarked (k.described beside)).length := by
  rw [Classical.not_imp] at h
  obtain ⟨rfl, hk⟩ := h
  cases k with
  | digit d =>
    have hd : ¬ d ≤ 9 := fun hd => hk (decide_eq_true hd)
    rw [described, text, digitText, if_pos rfl, if_neg hd]
    exact one_lt_length_unmarked_repr (not_le.1 hd)
  | _ => exact absurd rfl hk

/-- A key is described by at least as many characters as it is shown with, since a digit above nine
needs more of them in decimal. -/
theorem length_le_unmarked_described (k : Key V) (beside : Bool) :
    (unbracketed k.text).length ≤ (unmarked (k.described beside)).length := by
  by_cases h : beside = true → k.isDecimal = true
  · rw [unmarked_described h]
  · exact (length_lt_unmarked_described h).le

/-- So are sequences of keys. -/
theorem length_le_describedOf (left : Bool) (ks : List (Key V)) :
    (ks.flatMap fun k => unbracketed k.text).length ≤ (describedOf left ks).length := by
  induction ks generalizing left with
  | nil => exact le_rfl
  | cons k ks ih =>
    rw [List.flatMap_cons, describedOf, List.length_append, List.length_append]
    exact add_le_add (length_le_unmarked_described _ _) (ih _)

/-! ## Where the texts agree -/

/-- Figures are **decimal together** if neither of them is a digit above nine; other keys are. -/
def DecimalTogether (k k' : Key V) : Prop :=
  k.isFigure = true → k'.isFigure = true → k.isDecimal = true ∧ k'.isDecimal = true

/-- A key that is no figure is decimal. -/
theorem isDecimal_of_not_isFigure {k : Key V} (h : k.isFigure = false) : k.isDecimal = true := by
  cases k with
  | digit d => cases h
  | _ => rfl

/-- A key in front of others is decimal if it is beside a figure, and so are the figures beside it. -/
theorem isChain_decimalTogether_cons {left : Bool} {k : Key V} {ks : List (Key V)} :
    (left = true → k.isDecimal = true) ∧ (k :: ks).IsChain DecimalTogether ↔
      ((left || ks.head?.any isFigure) = true → k.isDecimal = true) ∧
        (k.isFigure = true → ks.head?.all isDecimal = true) ∧ ks.IsChain DecimalTogether := by
  cases ks with
  | nil => simp
  | cons k' ks =>
    have hk := isDecimal_of_not_isFigure (k := k)
    have hk' := isDecimal_of_not_isFigure (k := k')
    rw [List.isChain_cons_cons, DecimalTogether, List.head?_cons, Option.any_some, Option.all_some]
    cases left <;> cases hfigure : k.isFigure <;> cases hfigure' : k'.isFigure <;> simp_all [and_assoc]

/-- **Every key is described by its display text** exactly if neighbouring figures are decimal. -/
theorem describedOf_eq_iff (left : Bool) (ks : List (Key V)) :
    describedOf left ks = (ks.flatMap fun k => unbracketed k.text) ↔
      (left = true → ks.head?.all isDecimal = true) ∧ ks.IsChain DecimalTogether := by
  -- the key before decides about the next one, so it is generalized
  induction ks generalizing left with
  | nil => simp [describedOf]
  | cons k ks ih =>
    rw [describedOf, List.flatMap_cons, List.head?_cons, Option.all_some,
      isChain_decimalTogether_cons, ← ih]
    by_cases h : (left || ks.head?.any isFigure) = true → k.isDecimal = true
    · rw [unmarked_described h, List.append_cancel_left_eq]
      exact (and_iff_right h).symm
    · -- the text of this key is too long, and no other one is shorter
      refine iff_of_false (fun heq => ?_) fun hdecimal => h hdecimal.1
      have hlt := length_lt_unmarked_described h
      have hle := length_le_describedOf k.isFigure ks
      have hlength := congrArg List.length heq
      rw [List.length_append, List.length_append] at hlength
      omega

end Key

open Grammar in
/-- **A description shows the keys that were typed**, each of them in its place: without brackets and
the asterisks of products it consists of their texts as described. These are the display texts of
the keys, brackets apart, exactly if neighbouring figures are decimal. -/
theorem describe_shows_keys {keys : List (Key V)} {text : String} (h : describe keys = .ok text) :
    unmarked text = Key.describedOf false keys ∧
      (unmarked text = unbracketed (Key.textOf keys) ↔ keys.IsChain Key.DecimalTogether) := by
  have hshown : unmarked text = Key.describedOf false keys := by
    rw [describe] at h
    cases hkeys : Expr.ofKeys keys with
    | error e =>
      rw [hkeys] at h
      cases h
    | ok e =>
      rw [hkeys] at h
      obtain rfl : e.describe = text := Except.ok.inj h
      -- the list is that of a phrase, and the description of a phrase shows its keys
      obtain ⟨δ, rfl, rfl⟩ := exists_phrase_of_ofKeys hkeys
      exact δ.describedOf_keys.symm
  refine ⟨hshown, ?_⟩
  rw [hshown, unbracketed_textOf, Key.describedOf_eq_iff]
  simp

open Grammar in
/-- A digit above nine that stands alone is described like its key. -/
theorem describe_shows_keys_product :
    let keys : List (Key Unit) := [.digit 12, .opening, .digit 3, .operator .plus, .digit 1,
      .digit 0, .closing]
    describe keys = .ok "(?*((3)+(10)))" ∧ unmarked "(?*((3)+(10)))" = unbracketed (Key.textOf keys) := by
  intro keys
  have hkeys : describe keys = .ok "(?*((3)+(10)))" := by
    let three : Factor Unit true := .numeral [some 3] nofun
    let ten : Factor Unit true := .numeral [some 1, some 0] nofun
    let sum : Phrase Unit .low := (Phrase.operand (three.operand .low)).plus (ten.operand .low)
    let fs : Factors Unit false := .snoc (.single (.numeral [some 12] nofun)) (.bracketed sum) rfl
    rw [describe, show Expr.ofKeys keys = _ from
      ofKeys_of_weight_le (.operand (fs.operand .low)) (by decide)]
    rfl
  have hdecimal : keys.IsChain Key.DecimalTogether := by
    simp [keys, Key.DecimalTogether, Key.isFigure, Key.isDecimal]
  exact ⟨hkeys, (describe_shows_keys hkeys).2.2 hdecimal⟩

open Grammar in
/-- Behind another digit a digit above nine is **described as a number**, which is not what its key
shows. -/
theorem not_describe_shows_keys :
    let keys : List (Key Unit) := [.digit 1, .digit 12]
    describe keys = .ok "(112)" ∧ unmarked "(112)" ≠ unbracketed (Key.textOf keys) := by
  intro keys
  have hkeys : describe keys = .ok "(112)" := by
    let number : Factor Unit true := .numeral [some 1, some 12] nofun
    rw [describe, show Expr.ofKeys keys = _ from
      ofKeys_of_weight_le (.operand (number.operand .low)) (by decide)]
    rfl
  exact ⟨hkeys, by decide⟩

end Keypad
