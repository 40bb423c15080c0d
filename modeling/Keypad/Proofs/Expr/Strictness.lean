import Keypad.Complex.Arithmetic
import Keypad.Proofs.Decimal.Numeral
import Keypad.Proofs.Expr.Explicit

/-! # Strict evaluation

Evaluation goes through all parts of an expression, operands from left to right before the operation
that takes them, and stops at the first part that refuses. Groups and functions never refuse. With
complex numbers neither does any operation but a root with an index, a remainder and a factorial;
apart from these only malformed numerals do, and they do wherever they stand. -/

namespace Keypad

/-! ## Malformed numerals -/

namespace Numeral

/-- A numeral is **malformed** if it has two points, or a digit that is not a decimal digit. -/
def IsMalformed (n : Numeral) : Prop := 1 < n.points ∨ ∃ d, some d ∈ n ∧ 9 < d

/-- Every digit of a numeral stands before or after its first point. -/
theorem mem_whole_append_fraction {n : Numeral} {d : Nat} (h : some d ∈ n) :
    d ∈ n.whole ++ n.fraction.reverse := by
  rw [List.mem_append, List.mem_reverse, whole, fraction, List.mem_filterMap, List.mem_filterMap]
  rw [← List.takeWhile_append_dropWhile (p := Option.isSome) (l := n), List.mem_append] at h
  exact h.imp (fun h => ⟨_, h, rfl⟩) (fun h => ⟨_, h, rfl⟩)

/-- **Reading a numeral** fails exactly if it is malformed. -/
theorem exists_read_eq_error_iff (n : Numeral) : (∃ e, n.read = .error e) ↔ n.IsMalformed := by
  constructor
  · rintro ⟨e, he⟩
    by_contra hn
    simp only [IsMalformed, not_or, not_exists, not_and, Nat.not_lt] at hn
    rw [read_of_isDecimal hn.2 hn.1] at he
    cases he
  · intro hn
    by_cases hpoints : 1 < n.points
    · exact ⟨_, by rw [read, if_pos hpoints]⟩
    · obtain ⟨d, hd, hlt⟩ := hn.resolve_left hpoints
      have hfind : ((n.whole ++ n.fraction.reverse).find? (9 < ·)).isSome = true :=
        List.find?_isSome.2 ⟨d, mem_whole_append_fraction hd, decide_eq_true hlt⟩
      obtain ⟨d', hd'⟩ := Option.isSome_iff_exists.1 hfind
      exact ⟨_, by rw [read, if_neg hpoints, hd']⟩

end Numeral

namespace Expr

variable {V : Type}

/-! ## Operands and parts -/

/-- The **operands** of an expression from left to right. -/
def operands : Expr V → List (Expr V)
  | .leaf _ => []
  | .number _ => []
  | .group factors => factors
  | .binary _ lhs rhs => [lhs, rhs]
  | .leading _ rhs => [rhs]
  | .trailing _ lhs => [lhs]
  | .apply _ arg => [arg]

mutual

/-- The **parts** of an expression in the order of evaluation: the parts of its operands from left to
right, and last the expression itself. -/
def parts : Expr V → List (Expr V)
  | .leaf n => [.leaf n]
  | .number n => [.number n]
  | .group factors => partsAll factors ++ [.group factors]
  | .binary op lhs rhs => parts lhs ++ parts rhs ++ [.binary op lhs rhs]
  | .leading op rhs => parts rhs ++ [.leading op rhs]
  | .trailing op lhs => parts lhs ++ [.trailing op lhs]
  | .apply f arg => parts arg ++ [.apply f arg]

/-- The parts of some expressions, one expression after the other. -/
def partsAll : List (Expr V) → List (Expr V)
  | [] => []
  | e :: es => parts e ++ partsAll es

end

/-- The parts are those of the operands, and last the expression itself. -/
theorem parts_eq (e : Expr V) : e.parts = partsAll e.operands ++ [e] := by
  cases e <;> simp [parts, partsAll, operands]

/-- Every expression is a part of itself. -/
theorem mem_parts_self (e : Expr V) : e ∈ e.parts := by
  simp [parts_eq]

/-- The parts of some expressions are those of each of them in turn. -/
theorem partsAll_eq_flatMap (es : List (Expr V)) : partsAll es = es.flatMap parts := by
  induction es with
  | nil => rfl
  | cons e es ih => rw [partsAll, ih, List.flatMap_cons]

/-- A part of an operand is a part of the whole. -/
theorem mem_parts_of_mem_operands {e o s : Expr V} (ho : o ∈ e.operands) (hs : s ∈ o.parts) :
    s ∈ e.parts := by
  rw [parts_eq, partsAll_eq_flatMap, List.mem_append]
  exact .inl (List.mem_flatMap.2 ⟨o, ho, hs⟩)

mutual

/-- **Induction on the operands** of an expression. -/
theorem inductionOnOperands {motive : Expr V → Prop}
    (step : ∀ e : Expr V, (∀ o ∈ e.operands, motive o) → motive e) : (e : Expr V) → motive e
  | .leaf _ => step _ fun _ ho => absurd ho List.not_mem_nil
  | .number _ => step _ fun _ ho => absurd ho List.not_mem_nil
  | .group factors => step _ (forall_mem_of_step step factors)
  | .binary _ lhs rhs => step _ (List.forall_mem_cons.2 ⟨inductionOnOperands step lhs,
      List.forall_mem_singleton.2 (inductionOnOperands step rhs)⟩)
  | .leading _ rhs => step _ (List.forall_mem_singleton.2 (inductionOnOperands step rhs))
  | .trailing _ lhs => step _ (List.forall_mem_singleton.2 (inductionOnOperands step lhs))
  | .apply _ arg => step _ (List.forall_mem_singleton.2 (inductionOnOperands step arg))

/-- The induction on operands, for the expressions of a list. -/
theorem forall_mem_of_step {motive : Expr V → Prop}
    (step : ∀ e : Expr V, (∀ o ∈ e.operands, motive o) → motive e) :
    (es : List (Expr V)) → ∀ e ∈ es, motive e
  | [] => fun _ ho => absurd ho List.not_mem_nil
  | e :: es => List.forall_mem_cons.2 ⟨inductionOnOperands step e, forall_mem_of_step step es⟩

end

/-- A part is **malformed** if it is a bare point, a digit that is not a decimal digit, or a
malformed numeral. -/
def IsMalformed : Expr V → Prop
  | .leaf (.digit d) => 9 < d
  | .leaf .point => True
  | .number n => n.IsMalformed
  | _ => False

/-- The operations that may refuse complex numbers. -/
def IsPartial : Expr V → Prop
  | .binary .root _ _ => True
  | .binary .modulo _ _ => True
  | .trailing .factorial _ => True
  | _ => False

section Evaluation

variable [Arithmetic V]

/-- An expression that **has a value**. -/
def HasValue (e : Expr V) : Prop := ∃ v, e.eval = .ok v

/-- An expression **refuses** if its operands have values, but it has none itself. -/
inductive Refuses : Expr V → EvalError V → Prop where
  | leaf {n : Numeric V} {e : NumeralError} (h : (n.value : Except NumeralError V) = .error e) :
    Refuses (.leaf n) (.numeral e)
  | number {n : Numeral} {e : NumeralError} (h : (n.value : Except NumeralError V) = .error e) :
    Refuses (.number n) (.numeral e)
  | binary {op : BinaryOp} {lhs rhs : Expr V} {v w : V} {err : EvalError V}
    (hlhs : lhs.eval = .ok v) (hrhs : rhs.eval = .ok w)
    (h : Arithmetic.binary op v w = .error err) : Refuses (.binary op lhs rhs) err
  | leading {op : PrefixOp} {rhs : Expr V} {v : V} {err : EvalError V} (hrhs : rhs.eval = .ok v)
    (h : Arithmetic.leading op v = .error err) : Refuses (.leading op rhs) err
  | trailing {op : PostfixOp} {lhs : Expr V} {v : V} {err : EvalError V} (hlhs : lhs.eval = .ok v)
    (h : Arithmetic.trailing op v = .error err) : Refuses (.trailing op lhs) err

/-! ## The first of some expressions -/

/-- Some expression has a property, and all before it have values. -/
def FirstAmong (es : List (Expr V)) (p : Expr V → Prop) : Prop :=
  ∃ front s back, es = front ++ s :: back ∧ (∀ t ∈ front, t.HasValue) ∧ p s

/-- No expression is the first of none. -/
theorem not_firstAmong_nil (p : Expr V → Prop) : ¬ FirstAmong [] p := by
  simp [FirstAmong]

/-- Either the first expression has the property, or it has a value and the search goes on. -/
theorem firstAmong_cons {e : Expr V} {es : List (Expr V)} {p : Expr V → Prop} :
    FirstAmong (e :: es) p ↔ p e ∨ e.HasValue ∧ FirstAmong es p := by
  constructor
  · rintro ⟨front, s, back, h, hfront, hs⟩
    cases front with
    | nil =>
      obtain ⟨rfl, rfl⟩ := List.cons.inj h
      exact .inl hs
    | cons t front =>
      obtain ⟨rfl, rfl⟩ := List.cons.inj h
      obtain ⟨ht, hfront⟩ := List.forall_mem_cons.1 hfront
      exact .inr ⟨ht, front, s, back, rfl, hfront, hs⟩
  · rintro (h | ⟨he, front, s, back, rfl, hfront, hs⟩)
    · exact ⟨[], e, es, rfl, List.forall_mem_nil _, h⟩
    · exact ⟨e :: front, s, back, rfl, List.forall_mem_cons.2 ⟨he, hfront⟩, hs⟩

/-- Of one expression only that one can be the first. -/
theorem firstAmong_singleton {e : Expr V} {p : Expr V → Prop} : FirstAmong [e] p ↔ p e := by
  simp [firstAmong_cons, not_firstAmong_nil]

/-- The search goes on in a second list only if all of the first one have values. -/
theorem firstAmong_append {es fs : List (Expr V)} {p : Expr V → Prop} :
    FirstAmong (es ++ fs) p ↔ FirstAmong es p ∨ (∀ e ∈ es, e.HasValue) ∧ FirstAmong fs p := by
  induction es with
  | nil => simp [not_firstAmong_nil]
  | cons e es ih =>
    rw [List.cons_append, firstAmong_cons, firstAmong_cons, List.forall_mem_cons, ih]
    tauto

/-! ## One step of evaluation -/

/-- Two steps give a result exactly if both do. -/
theorem bind_eq_ok_iff {α β ε : Type} {x : Except ε α} {f : α → Except ε β} {w : β} :
    x.bind f = .ok w ↔ ∃ v, x = .ok v ∧ f v = .ok w := by
  cases x <;> simp [Except.bind]

/-- Two steps fail with the failure of the first one, or with that of the second one after a success
of the first. -/
theorem bind_eq_error_iff {α β ε : Type} {x : Except ε α} {f : α → Except ε β} {err : ε} :
    x.bind f = .error err ↔ x = .error err ∨ ∃ v, x = .ok v ∧ f v = .error err := by
  cases x <;> simp [Except.bind]

/-- Changing failures neither adds nor removes one. -/
theorem mapError_eq_error_iff {α ε ε' : Type} {x : Except ε α} {f : ε → ε'} {err : ε'} :
    x.mapError f = .error err ↔ ∃ e, x = .error e ∧ f e = err := by
  cases x <;> simp [Except.mapError]

/-- The first factor of a product is evaluated first. -/
theorem evalProduct_cons (v : V) (e : Expr V) (es : List (Expr V)) :
    evalProduct v (e :: es) =
      e.eval.bind fun w => evalProduct (Arithmetic.multiply v w) es := rfl

/-- The factors of a product all have values if it has one. -/
theorem hasValue_of_evalProduct {es : List (Expr V)} {v w : V} (h : evalProduct v es = .ok w) :
    ∀ e ∈ es, e.HasValue := by
  induction es generalizing v with
  | nil => exact List.forall_mem_nil _
  | cons e es ih =>
    rw [evalProduct_cons, bind_eq_ok_iff] at h
    obtain ⟨x, hx, h⟩ := h
    exact List.forall_mem_cons.2 ⟨⟨x, hx⟩, ih h⟩

/-- The first factor without a value decides the error of a product. -/
theorem evalProduct_eq_error_iff {es : List (Expr V)} {v : V} {err : EvalError V} :
    evalProduct v es = .error err ↔ FirstAmong es fun e => e.eval = .error err := by
  induction es generalizing v with
  | nil => simp [evalProduct, not_firstAmong_nil]
  | cons e es ih =>
    rw [evalProduct_cons, bind_eq_error_iff, firstAmong_cons]
    simp only [ih, exists_and_right, HasValue]

/-- **Operands are needed**: they all have values if the expression has one. -/
theorem HasValue.operands {e : Expr V} (h : e.HasValue) : ∀ o ∈ e.operands, o.HasValue := by
  obtain ⟨w, hw⟩ := h
  -- every form evaluates its operands before it is applied
  cases e with
  | leaf n => exact List.forall_mem_nil _
  | number n => exact List.forall_mem_nil _
  | group es => exact hasValue_of_evalProduct hw
  | binary op lhs rhs =>
    rw [eval_binary, bind_eq_ok_iff] at hw
    obtain ⟨v, hv, hw⟩ := hw
    obtain ⟨v', hv', -⟩ := bind_eq_ok_iff.1 hw
    exact List.forall_mem_cons.2 ⟨⟨v, hv⟩, List.forall_mem_singleton.2 ⟨v', hv'⟩⟩
  | leading op rhs =>
    obtain ⟨v, hv, -⟩ := bind_eq_ok_iff.1 hw
    exact List.forall_mem_singleton.2 ⟨v, hv⟩
  | trailing op lhs =>
    obtain ⟨v, hv, -⟩ := bind_eq_ok_iff.1 hw
    exact List.forall_mem_singleton.2 ⟨v, hv⟩
  | apply f arg =>
    obtain ⟨v, hv, -⟩ := bind_eq_ok_iff.1 hw
    exact List.forall_mem_singleton.2 ⟨v, hv⟩

/-- An expression that refuses has that error. -/
theorem Refuses.eval {e : Expr V} {err : EvalError V} (h : e.Refuses err) : e.eval = .error err := by
  cases h with
  | leaf h => exact mapError_eq_error_iff.2 ⟨_, h, rfl⟩
  | number h => exact mapError_eq_error_iff.2 ⟨_, h, rfl⟩
  | binary hlhs hrhs h =>
    rw [eval_binary, hlhs, hrhs]
    exact h
  | leading hrhs h =>
    rw [eval_leading, hrhs]
    exact h
  | trailing hlhs h =>
    rw [eval_trailing, hlhs]
    exact h

/-- **Operands come first**: an error is that of the first operand without a value, or all operands
have values and the expression itself refuses. -/
theorem eval_eq_error_iff_operands {e : Expr V} {err : EvalError V} :
    e.eval = .error err ↔
      (FirstAmong e.operands fun o => o.eval = .error err) ∨
        (∀ o ∈ e.operands, o.HasValue) ∧ e.Refuses err := by
  constructor
  · -- the error is that of an operand, which is the first, or of the form on their values
    intro h
    cases e with
    | leaf n =>
      obtain ⟨x, hx, rfl⟩ := mapError_eq_error_iff.1 h
      exact .inr ⟨List.forall_mem_nil _, .leaf hx⟩
    | number n =>
      obtain ⟨x, hx, rfl⟩ := mapError_eq_error_iff.1 h
      exact .inr ⟨List.forall_mem_nil _, .number hx⟩
    | group es => exact .inl (evalProduct_eq_error_iff.1 h)
    | binary op lhs rhs =>
      rcases bind_eq_error_iff.1 h with h | ⟨v, hv, h⟩
      · exact .inl (firstAmong_cons.2 (.inl h))
      · rcases bind_eq_error_iff.1 h with h | ⟨w, hw, h⟩
        · exact .inl (firstAmong_cons.2 (.inr ⟨⟨v, hv⟩, firstAmong_singleton.2 h⟩))
        · exact .inr ⟨List.forall_mem_cons.2 ⟨⟨v, hv⟩, List.forall_mem_singleton.2 ⟨w, hw⟩⟩,
            .binary hv hw h⟩
    | leading op rhs =>
      rcases bind_eq_error_iff.1 h with h | ⟨v, hv, h⟩
      · exact .inl (firstAmong_singleton.2 h)
      · exact .inr ⟨List.forall_mem_singleton.2 ⟨v, hv⟩, .leading hv h⟩
    | trailing op lhs =>
      rcases bind_eq_error_iff.1 h with h | ⟨v, hv, h⟩
      · exact .inl (firstAmong_singleton.2 h)
      · exact .inr ⟨List.forall_mem_singleton.2 ⟨v, hv⟩, .trailing hv h⟩
    | apply f arg =>
      -- a function refuses nothing, so the error is that of its argument
      rcases bind_eq_error_iff.1 h with h | ⟨v, hv, h⟩
      · exact .inl (firstAmong_singleton.2 h)
      · cases h
  · -- the operands before the one with the error have values, so it is reached
    rintro (h | ⟨-, h⟩)
    · cases e with
      | leaf n => exact absurd h (not_firstAmong_nil _)
      | number n => exact absurd h (not_firstAmong_nil _)
      | group es => exact evalProduct_eq_error_iff.2 h
      | binary op lhs rhs =>
        rw [eval_binary, bind_eq_error_iff]
        rcases firstAmong_cons.1 h with h | ⟨⟨v, hv⟩, h⟩
        · exact .inl h
        · exact .inr ⟨v, hv, bind_eq_error_iff.2 (.inl (firstAmong_singleton.1 h))⟩
      | leading op rhs => exact bind_eq_error_iff.2 (.inl (firstAmong_singleton.1 h))
      | trailing op lhs => exact bind_eq_error_iff.2 (.inl (firstAmong_singleton.1 h))
      | apply f arg => exact bind_eq_error_iff.2 (.inl (firstAmong_singleton.1 h))
    · exact h.eval

/-! ## The whole evaluation -/

/-- **Evaluation is strict**: every part of an expression with a value has a value. -/
theorem HasValue.parts {e : Expr V} (h : e.HasValue) : ∀ t ∈ e.parts, t.HasValue := by
  induction e using inductionOnOperands with
  | step e ih =>
    intro t ht
    rw [parts_eq, partsAll_eq_flatMap] at ht
    rcases List.mem_append.1 ht with ht | ht
    · obtain ⟨o, ho, ht⟩ := List.mem_flatMap.1 ht
      exact ih o ho (h.operands o ho) t ht
    · rw [List.mem_singleton.1 ht]
      exact h

/-- What is first among the parts of some expressions is first among the parts of the first of them
in which there is one. -/
theorem firstAmong_partsAll {es : List (Expr V)} {p q : Expr V → Prop}
    (h : ∀ e ∈ es, (q e ↔ FirstAmong e.parts p)) : FirstAmong es q ↔ FirstAmong (partsAll es) p := by
  induction es with
  | nil => simp [partsAll, not_firstAmong_nil]
  | cons e es ih =>
    obtain ⟨he, hes⟩ := List.forall_mem_cons.1 h
    have hparts : (∀ t ∈ e.parts, t.HasValue) ↔ e.HasValue :=
      ⟨fun ht => ht e e.mem_parts_self, HasValue.parts⟩
    rw [partsAll, firstAmong_append, firstAmong_cons, hparts, he, ih hes]

/-- **The first part that refuses** decides the error. -/
theorem eval_eq_error_iff {e : Expr V} {err : EvalError V} :
    e.eval = .error err ↔ FirstAmong e.parts fun s => s.Refuses err := by
  induction e using inductionOnOperands with
  | step e ih =>
    have hparts : (∀ t ∈ partsAll e.operands, t.HasValue) ↔ ∀ o ∈ e.operands, o.HasValue := by
      rw [partsAll_eq_flatMap]
      constructor
      · intro h o ho
        exact h o (List.mem_flatMap.2 ⟨o, ho, o.mem_parts_self⟩)
      · intro h t ht
        obtain ⟨o, ho, ht⟩ := List.mem_flatMap.1 ht
        exact (h o ho).parts t ht
    rw [eval_eq_error_iff_operands, parts_eq, firstAmong_append, firstAmong_singleton, hparts,
      firstAmong_partsAll ih]

/-- A numeral has no value exactly if it is malformed. -/
theorem exists_value_eq_error_iff (n : Numeral) :
    (∃ e, (n.value : Except NumeralError V) = .error e) ↔ n.IsMalformed := by
  rw [← n.exists_read_eq_error_iff, Numeral.value]
  cases n.read <;> simp [Except.map]

/-- A single digit is malformed exactly if it is above nine. -/
theorem isMalformed_digit_iff {d : Nat} : Numeral.IsMalformed [some d] ↔ 9 < d := by
  simp [Numeral.IsMalformed, Numeral.points]

/-- A malformed part has no value. -/
theorem IsMalformed.not_hasValue {e : Expr V} (h : e.IsMalformed) : ¬ e.HasValue := by
  have hvalue {n : Numeral} (hn : n.IsMalformed) :
      ¬ ∃ v : V, n.value.mapError (EvalError.numeral (V := V)) = .ok v := by
    obtain ⟨e, he⟩ := (exists_value_eq_error_iff (V := V) n).2 hn
    simp [he, Except.mapError]
  cases e with
  | leaf n =>
    cases n with
    | digit d => exact hvalue (isMalformed_digit_iff.2 h)
    | point => simp [HasValue, eval, Numeric.value, Except.mapError]
    | constant c => exact h.elim
  | number n => exact hvalue h
  | _ => exact h.elim

/-- What has no value has an error. -/
theorem exists_eval_eq_error {e : Expr V} (h : ¬ e.HasValue) : ∃ err, e.eval = .error err := by
  cases he : e.eval with
  | error err => exact ⟨err, rfl⟩
  | ok v => exact absurd ⟨v, he⟩ h

end Evaluation

/-! ## Complex numbers -/

/-- The square root refuses no number, because two is a whole real number. -/
theorem exists_root_two (z : Value) : ∃ w, Complex.root Complex.two z = .ok w := by
  have hindex : (Complex.two.isReal && Double.isWhole Complex.two.re) = true := by
    decide +kernel
  unfold Complex.root
  rw [hindex, Bool.not_true, if_neg Bool.false_ne_true]
  dsimp only
  split_ifs <;> exact ⟨_, rfl⟩

/-- With complex numbers only malformed parts and the partial operations refuse. -/
theorem Refuses.isMalformed_or_isPartial {s : Expr Value} {err : EvalError Value}
    (h : s.Refuses err) : s.IsMalformed ∨ s.IsPartial := by
  cases h with
  | @leaf n e h =>
    refine .inl ?_
    cases n with
    | digit d => exact isMalformed_digit_iff.1 ((exists_value_eq_error_iff _).1 ⟨e, h⟩)
    | point => trivial
    | constant c => cases h
  | number h => exact .inl ((exists_value_eq_error_iff _).1 ⟨_, h⟩)
  | @binary op lhs rhs v w err hlhs hrhs h =>
    -- of the operators between operands only roots and the modulo refuse any
    cases op with
    | root => exact .inr trivial
    | modulo => exact .inr trivial
    | _ => cases h
  | @leading op rhs v err hrhs h =>
    cases op with
    | squareRoot =>
      obtain ⟨w, hw⟩ := exists_root_two v
      cases hw.symm.trans h
    | _ => cases h
  | @trailing op lhs v err hlhs h =>
    cases op with
    | factorial => exact .inr trivial

/-- **Strict evaluation** of complex numbers. An expression with a malformed part has an error. One
without malformed parts and without partial operations has a value, whatever values occur. The
error is that of the first part that refuses, operands before their operation and from left to
right. -/
theorem eval_strict (e : Expr Value) :
    ((∃ s ∈ e.parts, s.IsMalformed) → ∃ err, e.eval = .error err) ∧
      ((∀ s ∈ e.parts, ¬ s.IsMalformed ∧ ¬ s.IsPartial) → ∃ v, e.eval = .ok v) ∧
      ∀ err, e.eval = .error err ↔
        ∃ front s back, e.parts = front ++ s :: back ∧ (∀ t ∈ front, ∃ v, t.eval = .ok v) ∧
          s.Refuses err := by
  refine ⟨?_, ?_, fun err => eval_eq_error_iff⟩
  · rintro ⟨s, hs, hmalformed⟩
    exact exists_eval_eq_error fun h => hmalformed.not_hasValue (h.parts s hs)
  · intro h
    by_contra hvalue
    obtain ⟨err, herr⟩ := exists_eval_eq_error hvalue
    obtain ⟨front, s, back, hparts, -, hs⟩ := eval_eq_error_iff.1 herr
    have hmem : s ∈ e.parts := by simp [hparts]
    exact hs.isMalformed_or_isPartial.elim (h s hmem).1 (h s hmem).2

/-- The sum of `1(1..)` and a bare point is an error, and the numeral with two points comes first; the
square root of `i` has a value. -/
theorem eval_strict_sum :
    let e : Expr Value :=
      .binary .add (.group [.leaf (.digit 1), .number [some 1, none, none]]) (.leaf .point)
    let e' : Expr Value := .leading .squareRoot (.group [.leaf (.constant .i)])
    ((∃ s ∈ e.parts, s.IsMalformed) ∧ ∃ err, e.eval = .error err) ∧
      ((∀ s ∈ e'.parts, ¬ s.IsMalformed ∧ ¬ s.IsPartial) ∧ ∃ v, e'.eval = .ok v) ∧
      e.eval = .error (.numeral (.tooManyPoints [some 1, none, none])) := by
  intro e e'
  have hmalformed : ∃ s ∈ e.parts, s.IsMalformed :=
    ⟨.leaf .point, by simp [e, parts, partsAll], trivial⟩
  have hfree : ∀ s ∈ e'.parts, ¬ s.IsMalformed ∧ ¬ s.IsPartial := by
    simp [e', parts, partsAll, IsMalformed, IsPartial]
  refine ⟨⟨hmalformed, (eval_strict e).1 hmalformed⟩, ⟨hfree, (eval_strict e').2.1 hfree⟩, ?_⟩
  refine ((eval_strict e).2.2 _).2 ⟨[.leaf (.digit 1)], .number [some 1, none, none],
    [.group [.leaf (.digit 1), .number [some 1, none, none]], .leaf .point, e], rfl, ?_, .number rfl⟩
  exact List.forall_mem_singleton.2 ⟨_, rfl⟩

end Expr

end Keypad
