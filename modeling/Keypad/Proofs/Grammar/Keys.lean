import Keypad.Proofs.Grammar.Budget
import Keypad.Proofs.Grammar.Phrase

/-! # Reading single keys

Each view of a key has one key for each of its values: the view undoes the writing of that key. So a
parser of single keys reads exactly the keys written for the values it accepts. -/

namespace Keypad

variable {V : Type}

/-- The key that is read as a number or a part of one. -/
def Numeric.key : Numeric V → Key V
  | .digit d => .digit d
  | .point => .point
  | .constant c => .constant c

namespace Operator

/-- Exactly the operator of a binary operation is read as it. -/
theorem binary?_eq_some_iff {o : Operator} {op : BinaryOp} :
    o.binary? = some op ↔ o = op.operator := by
  cases o <;> cases op <;> decide

/-- Exactly the operator of a leading operation is read as it. -/
theorem leading?_eq_some_iff {o : Operator} {op : PrefixOp} :
    o.leading? = some op ↔ o = op.operator := by
  cases o <;> cases op <;> decide

/-- Exactly the operator of a trailing operation is read as it. -/
theorem trailing?_eq_some_iff {o : Operator} {op : PostfixOp} :
    o.trailing? = some op ↔ o = op.operator := by
  cases o <;> cases op <;> decide

end Operator

/-- Binary operations are written with different keys. -/
theorem BinaryOp.operator_injective {op op' : BinaryOp} (h : op.operator = op'.operator) :
    op = op' :=
  Option.some.inj (((binary?_operator op).symm.trans (congrArg _ h)).trans (binary?_operator op'))

/-- The key of a leading operation also writes a binary operation of the same tier. -/
theorem PrefixOp.exists_binary (op : PrefixOp) :
    ∃ op' : BinaryOp, op'.operator = op.operator ∧ op'.tier = op.tier := by
  cases op with
  | plus => exact ⟨.add, rfl, rfl⟩
  | negate => exact ⟨.subtract, rfl, rfl⟩
  | squareRoot => exact ⟨.root, rfl, rfl⟩

namespace Key

/-- A numeric key is the key of what it is read as. -/
theorem numeric?_eq_some_iff {k : Key V} {n : Numeric V} : k.numeric? = some n ↔ k = n.key := by
  cases k <;> cases n <;> simp [numeric?, Numeric.key]

/-- Exactly the key of a function is read as it. -/
theorem function?_eq_some_iff {k : Key V} {f : Function} : k.function? = some f ↔ k = .function f := by
  cases k <;> simp [function?]

/-- Only the opening bracket opens. -/
theorem opening?_eq_some_iff {k : Key V} {u : Unit} : k.opening? = some u ↔ k = .opening := by
  cases k <;> simp [opening?]

/-- Only the closing bracket closes. -/
theorem closing?_eq_some_iff {k : Key V} {u : Unit} : k.closing? = some u ↔ k = .closing := by
  cases k <;> simp [closing?]

/-- A key is read as a binary operation exactly if it is that of its operator. -/
theorem binary?_eq_some_iff {k : Key V} {op : BinaryOp} :
    k.binary? = some op ↔ k = .operator op.operator := by
  cases k with
  | operator o => simp [binary?, operator?, Operator.binary?_eq_some_iff]
  | _ => simp [binary?, operator?]

/-- A key is read as a leading operation exactly if it is that of its operator. -/
theorem leading?_eq_some_iff {k : Key V} {op : PrefixOp} :
    k.leading? = some op ↔ k = .operator op.operator := by
  cases k with
  | operator o => simp [leading?, operator?, Operator.leading?_eq_some_iff]
  | _ => simp [leading?, operator?]

/-- A key is read as a trailing operation exactly if it is that of its operator. -/
theorem trailing?_eq_some_iff {k : Key V} {op : PostfixOp} :
    k.trailing? = some op ↔ k = .operator op.operator := by
  cases k with
  | operator o => simp [trailing?, operator?, Operator.trailing?_eq_some_iff]
  | _ => simp [trailing?, operator?]

end Key

namespace Grammar

variable {α : Type} {calls : Calls V} {s rest : Stream (Key V)}

/-! ## Parsers of single keys -/

section View

variable {view : Key V → Option α} {write : α → Key V} {accepts : α → Bool} {a : α}

/-- A parser of single keys reads the keys written for the values it accepts. -/
theorem reads_satisfy_iff (hview : ∀ k a, view k = some a ↔ k = write a) :
    (Parser.satisfy view accepts).Reads calls s a rest ↔
      s = ⟨write a :: rest.items, rest.depth⟩ ∧ accepts a = true := by
  obtain ⟨ts, d⟩ := s
  rw [Parser.reads_satisfy]
  constructor
  · rintro ⟨k, rfl, rfl, hk, ha⟩
    rw [(hview k a).1 hk]
    exact ⟨rfl, ha⟩
  · rintro ⟨hs, ha⟩
    cases hs
    exact ⟨write a, rfl, rfl, (hview _ a).2 rfl, ha⟩

/-- A parser of single keys refuses everything else. -/
theorem refuses_satisfy_iff (hview : ∀ k a, view k = some a ↔ k = write a) :
    (Parser.satisfy view accepts).Refuses calls s ↔
      ∀ a ts, s.items = write a :: ts → accepts a = false := by
  rw [Parser.refuses_satisfy]
  constructor
  · intro h a ts hs
    exact h _ ts a hs ((hview _ a).2 rfl)
  · intro h k ts a hs hk
    rw [(hview k a).1 hk] at hs
    exact h a ts hs

end View

/-- What reading a binary operation of a tier takes off the keys. -/
theorem reads_binary_iff {t : Tier} {op : BinaryOp} :
    (binary t).Reads calls s op rest ↔
      s = ⟨.operator op.operator :: rest.items, rest.depth⟩ ∧ op.tier = t := by
  rw [binary, reads_satisfy_iff fun _ _ => Key.binary?_eq_some_iff, decide_eq_true_iff]

/-- What reading a leading operation of a tier takes off the keys. -/
theorem reads_leading_iff {t : Tier} {op : PrefixOp} :
    (leading t).Reads calls s op rest ↔
      s = ⟨.operator op.operator :: rest.items, rest.depth⟩ ∧ op.tier = t := by
  rw [leading, reads_satisfy_iff fun _ _ => Key.leading?_eq_some_iff, decide_eq_true_iff]

/-- What reading a trailing operation of a tier takes off the keys. -/
theorem reads_trailing_iff {t : Tier} {op : PostfixOp} :
    (trailing t).Reads calls s op rest ↔
      s = ⟨.operator op.operator :: rest.items, rest.depth⟩ ∧ op.tier = t := by
  rw [trailing, reads_satisfy_iff fun _ _ => Key.trailing?_eq_some_iff, decide_eq_true_iff]

/-- What reading a closing bracket takes off the keys. -/
theorem reads_closing_iff {u : Unit} :
    (Parser.item Key.closing?).Reads calls s u rest ↔ s = ⟨.closing :: rest.items, rest.depth⟩ := by
  rw [Parser.item, reads_satisfy_iff fun _ _ => Key.closing?_eq_some_iff, and_iff_left rfl]

/-- What reading an opening bracket takes off the keys. -/
theorem reads_opening_iff {u : Unit} :
    (Parser.item Key.opening?).Reads calls s u rest ↔ s = ⟨.opening :: rest.items, rest.depth⟩ := by
  rw [Parser.item, reads_satisfy_iff fun _ _ => Key.opening?_eq_some_iff, and_iff_left rfl]

/-- What reading a function takes off the keys. -/
theorem reads_function_iff {f : Function} :
    function.Reads calls s f rest ↔ s = ⟨.function f :: rest.items, rest.depth⟩ := by
  rw [function, Parser.item, reads_satisfy_iff fun _ _ => Key.function?_eq_some_iff,
    and_iff_left rfl]

/-! ## Constants and numerals -/

/-- What reading a constant takes off the keys, and the leaf it becomes. -/
theorem reads_constant_iff {e : Expr V} :
    constant.Reads calls s e rest ↔
      ∃ c, s = ⟨.constant c :: rest.items, rest.depth⟩ ∧ e = .leaf (.constant c) := by
  rw [constant, Parser.reads_map]
  constructor
  · rintro ⟨n, hn, rfl⟩
    rw [reads_satisfy_iff fun _ _ => Key.numeric?_eq_some_iff] at hn
    cases n with
    | constant c => exact ⟨c, hn.1, rfl⟩
    | _ => cases hn.2
  · rintro ⟨c, hs, rfl⟩
    refine ⟨.constant c, ?_, rfl⟩
    rw [reads_satisfy_iff fun _ _ => Key.numeric?_eq_some_iff]
    exact ⟨hs, rfl⟩

/-- The numeric key that a digit or the point of a numeral is read as. -/
def numericOf : Option Nat → Numeric V
  | some d => .digit d
  | none => .point

/-- A figure as a numeric key is the key of that figure. -/
theorem key_numericOf (c : Option Nat) : (numericOf c).key = (Numeral.key c : Key V) := by
  cases c <;> rfl

/-- Parts of numerals are digits and points. -/
theorem isNumeral_iff {n : Numeric V} : n.isNumeral = true ↔ ∃ c, n = numericOf c := by
  constructor
  · intro h
    cases n with
    | digit d => exact ⟨some d, rfl⟩
    | point => exact ⟨none, rfl⟩
    | constant c => cases h
  · rintro ⟨_ | d, rfl⟩ <;> rfl

/-- What reading a figure takes off the keys. -/
theorem reads_numeral_key_iff {n : Numeric V} :
    (Parser.satisfy Key.numeric? Numeric.isNumeral).Reads calls s n rest ↔
      ∃ c, s = ⟨Numeral.key c :: rest.items, rest.depth⟩ ∧ n = numericOf c := by
  rw [reads_satisfy_iff fun _ _ => Key.numeric?_eq_some_iff, isNumeral_iff]
  constructor
  · rintro ⟨hs, c, rfl⟩
    exact ⟨c, by rw [hs, key_numericOf], rfl⟩
  · rintro ⟨c, hs, rfl⟩
    exact ⟨by rw [hs, key_numericOf], c, rfl⟩

/-- A figure is refused exactly where none is in front. -/
theorem refuses_numeral_key_iff :
    (Parser.satisfy Key.numeric? Numeric.isNumeral).Refuses calls s ↔
      ∀ c us, s.items ≠ Numeral.key c :: us := by
  rw [refuses_satisfy_iff fun _ _ => Key.numeric?_eq_some_iff]
  constructor
  · intro h c us hs
    rw [← key_numericOf] at hs
    exact absurd (isNumeral_iff.2 ⟨c, rfl⟩) (Bool.eq_false_iff.1 (h _ us hs))
  · intro h n us hs
    refine Bool.eq_false_iff.2 fun hn => ?_
    obtain ⟨c, rfl⟩ := isNumeral_iff.1 hn
    exact h c us (by rw [hs, key_numericOf])

/-- The part of a numeral that a numeric key stands for. -/
def numeralPart : Numeric V → Option Nat
  | .digit d => some d
  | _ => none

/-- A numeral is the same after its figures have been read one by one. -/
theorem map_numeralPart (n : Numeral) : (n.map numericOf).map (numeralPart (V := V)) = n := by
  rw [List.map_map]
  refine (List.map_congr_left fun c _ => ?_).trans (List.map_id n)
  cases c <;> rfl

/-- The tree of a numeral is what its keys are read as. -/
theorem numeralOf_map {n : Numeral} (h : n ≠ []) :
    numeralOf (n.map numericOf) = (numeralTree n : Expr V) := by
  cases n with
  | nil => exact absurd rfl h
  | cons c n =>
    cases n with
    | nil => cases c <;> rfl
    | cons c' n =>
      have hnumber : numeralOf ((c :: c' :: n).map numericOf) =
          (.number (((c :: c' :: n).map numericOf).map numeralPart) : Expr V) := rfl
      rw [hnumber, map_numeralPart]
      cases c <;> rfl

end Grammar

end Keypad
