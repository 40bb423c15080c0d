import Keypad.Proofs.Expr.Strictness

/-! # The height of an expression

How many nodes there are on a path from an expression down to a part without operands, and what
that means for a recursion. One that goes through an expression by calling itself on operands never
has more calls at work at once than there are nodes on a path. So calls inside each other as deep as
the **height** are enough for it, and where it needs every operand, fewer are not. Evaluating an
expression, describing it and discarding it are such recursions. -/

namespace Keypad.Expr

variable {V : Type}

/-! ## Paths -/

/-- A **path** from an expression down to a part without operands. -/
inductive IsPath : Expr V → List (Expr V) → Prop where
  /-- An expression without operands is the end of its path. -/
  | leaf {e : Expr V} (h : e.operands = []) : IsPath e [e]
  /-- A path goes on with a path of any operand. -/
  | step {e o : Expr V} {path : List (Expr V)} (ho : o ∈ e.operands) (h : IsPath o path) :
    IsPath e (e :: path)

mutual

/-- The **height** of an expression: the number of nodes on a longest path. -/
def height : Expr V → Nat
  | .leaf _ => 1
  | .number _ => 1
  | .group factors => heightAll factors + 1
  | .binary _ lhs rhs => max lhs.height rhs.height + 1
  | .leading _ rhs => rhs.height + 1
  | .trailing _ lhs => lhs.height + 1
  | .apply _ arg => arg.height + 1

/-- The height of the highest of some expressions; that of none is zero. -/
def heightAll : List (Expr V) → Nat
  | [] => 0
  | e :: es => max e.height (heightAll es)

end

/-- An expression is one node higher than the highest of its operands. -/
theorem height_eq (e : Expr V) : e.height = heightAll e.operands + 1 := by
  cases e <;> simp [height, heightAll, operands]

/-- Of all expressions in two lists the highest is the highest in one of them. -/
theorem heightAll_append (es fs : List (Expr V)) :
    heightAll (es ++ fs) = max (heightAll es) (heightAll fs) := by
  induction es with
  | nil => simp [heightAll]
  | cons e es ih => rw [List.cons_append, heightAll, heightAll, ih, max_assoc]

/-- No expression in a list is higher than the highest one. -/
theorem height_le_heightAll {e : Expr V} {es : List (Expr V)} (he : e ∈ es) :
    e.height ≤ heightAll es := by
  obtain ⟨front, back, rfl⟩ := List.append_of_mem he
  rw [heightAll_append, heightAll]
  omega

/-- An operand is lower than the expression. -/
theorem height_lt_of_mem_operands {e o : Expr V} (ho : o ∈ e.operands) : o.height < e.height := by
  rw [e.height_eq]
  exact Nat.lt_succ_of_le (height_le_heightAll ho)

/-- One of some expressions is as high as the highest. -/
theorem exists_mem_height_eq {es : List (Expr V)} (h : es ≠ []) :
    ∃ e ∈ es, e.height = heightAll es := by
  -- the first expression is the highest, or one of those behind it is
  induction es with
  | nil => exact absurd rfl h
  | cons e es ih =>
    rcases le_total (heightAll es) e.height with hle | hle
    · exact ⟨e, List.mem_cons_self, (max_eq_left hle).symm⟩
    · -- the expressions behind are none only if the first one is the highest, and has no nodes
      have hpos : 0 < e.height := by
        rw [e.height_eq]
        exact Nat.succ_pos _
      have hne : es ≠ [] := by
        rintro rfl
        exact absurd hle (Nat.not_le.2 hpos)
      obtain ⟨o, ho, heq⟩ := ih hne
      exact ⟨o, List.mem_cons_of_mem _ ho, by rw [heq, heightAll, max_eq_right hle]⟩

/-- No path is longer than the height. -/
theorem IsPath.length_le_height {e : Expr V} {path : List (Expr V)} (h : e.IsPath path) :
    path.length ≤ e.height := by
  induction h with
  | @leaf e h => simp [e.height_eq]
  | step ho h ih => exact Nat.succ_le_of_lt (lt_of_le_of_lt ih (height_lt_of_mem_operands ho))

/-- Some path is as long: at each node it goes on to a highest operand. -/
theorem exists_isPath_length_eq (e : Expr V) : ∃ path, e.IsPath path ∧ path.length = e.height := by
  induction e using inductionOnOperands with
  | step e ih =>
    rw [e.height_eq]
    by_cases hnil : e.operands = []
    · exact ⟨[e], .leaf hnil, by rw [hnil, heightAll, List.length_singleton]⟩
    · obtain ⟨o, ho, heq⟩ := exists_mem_height_eq hnil
      obtain ⟨path, hpath, hlen⟩ := ih o ho
      exact ⟨e :: path, .step ho hpath, by rw [List.length_cons, hlen, heq]⟩

/-- **The height is the length of a longest path.** -/
theorem height_le_iff {e : Expr V} {n : Nat} :
    e.height ≤ n ↔ ∀ path, e.IsPath path → path.length ≤ n := by
  constructor
  · exact fun h path hpath => hpath.length_le_height.trans h
  · intro h
    obtain ⟨path, hpath, hlen⟩ := e.exists_isPath_length_eq
    exact hlen ▸ h path hpath

/-! ## Recursion with so many calls -/

section Within

variable {α : Type}

/-- A recursion **within** so many calls inside each other; there is no result if these are not
enough. It is told by a single call, which gets what further calls give as an argument. -/
def within (call : (Expr V → Option α) → Expr V → Option α) : Nat → Expr V → Option α
  | 0 => fun _ => none
  | depth + 1 => call (within call depth)

/-- A recursion **computes** a function from operands: a call gives its value for an expression as
soon as further calls give its values for the operands. -/
def Computes (call : (Expr V → Option α) → Expr V → Option α) (f : Expr V → α) : Prop :=
  ∀ (self : Expr V → Option α) (e : Expr V),
    (∀ o ∈ e.operands, self o = some (f o)) → call self e = some (f e)

/-- A recursion **needs** all operands for certain results: a call gives one of these only if
further calls give one for every operand. -/
def Needs (call : (Expr V → Option α) → Expr V → Option α) (p : α → Prop) : Prop :=
  ∀ (self : Expr V → Option α) (e : Expr V) (a : α), call self e = some a → p a →
    ∀ o ∈ e.operands, ∃ b, self o = some b ∧ p b

variable {call : (Expr V → Option α) → Expr V → Option α} {f : Expr V → α} {p : α → Prop}
  {depth : Nat} {e : Expr V} {a : α}

/-- **The height is enough** for a recursion on operands. -/
theorem Computes.within_eq_some (h : Computes call f) (he : e.height ≤ depth) :
    within call depth e = some (f e) := by
  induction depth generalizing e with
  | zero =>
    rw [e.height_eq] at he
    cases he
  | succ depth ih =>
    refine h _ e fun o ho => ih ?_
    exact Nat.le_of_lt_succ (lt_of_lt_of_le (height_lt_of_mem_operands ho) he)

/-- **Less than the height is not enough** for what needs all operands. -/
theorem Needs.height_le (h : Needs call p) (hwithin : within call depth e = some a) (ha : p a) :
    e.height ≤ depth := by
  induction depth generalizing e a with
  | zero => cases hwithin
  | succ depth ih =>
    -- the highest operand alone needs one call less than the expression
    rw [e.height_eq, Nat.add_le_add_iff_right]
    by_cases hnil : e.operands = []
    · rw [hnil]
      exact Nat.zero_le _
    · obtain ⟨o, ho, heq⟩ := exists_mem_height_eq hnil
      obtain ⟨b, hb, hpb⟩ := h _ e a hwithin ha o ho
      exact heq ▸ ih hb hpb

/-- **The height is what a recursion takes**: with fewer calls inside each other there is no result,
and with as many there is the right one. -/
theorem Computes.within_eq_some_iff (h : Computes call f) (hneeds : Needs call p) (ha : p a) :
    within call depth e = some a ↔ e.height ≤ depth ∧ f e = a := by
  constructor
  · intro hwithin
    have he := hneeds.height_le hwithin ha
    exact ⟨he, Option.some.inj ((h.within_eq_some he).symm.trans hwithin)⟩
  · rintro ⟨he, rfl⟩
    exact h.within_eq_some he

end Within

/-! ## Evaluating -/

section Evaluation

variable [Arithmetic V]

/-- A call of the evaluation. An operand is not evaluated any more after one without a value. -/
def evalCall (self : Expr V → ExceptT (EvalError V) Option V) :
    Expr V → ExceptT (EvalError V) Option V
  | .leaf n => .mk (some (n.value.mapError .numeral))
  | .number n => .mk (some (n.value.mapError .numeral))
  | .group factors =>
    factors.foldlM (fun product e => return Arithmetic.multiply product (← self e)) Arithmetic.one
  | .binary op lhs rhs => do .mk (some (Arithmetic.binary op (← self lhs) (← self rhs)))
  | .leading op rhs => do .mk (some (Arithmetic.leading op (← self rhs)))
  | .trailing op lhs => do .mk (some (Arithmetic.trailing op (← self lhs)))
  | .apply f arg => return Arithmetic.function f (← self arg)

/-- Going on after a result that is there. -/
theorem mk_some_bind {ε α β : Type} {x : Except ε α} {f : α → ExceptT ε Option β}
    {g : α → Except ε β} (h : ∀ v, f v = .mk (some (g v))) :
    (ExceptT.mk (some x) >>= f) = .mk (some (x.bind g)) := by
  cases x with
  | error err => rfl
  | ok v => exact h v

/-- Calls that evaluate the factors make the loop over them the product. -/
theorem foldlM_multiply {self : Expr V → ExceptT (EvalError V) Option V} {es : List (Expr V)}
    (hself : ∀ e ∈ es, self e = .mk (some e.eval)) (v : V) :
    es.foldlM (fun product e => return Arithmetic.multiply product (← self e)) v =
      .mk (some (evalProduct v es)) := by
  induction es generalizing v with
  | nil => rfl
  | cons e es ih =>
    obtain ⟨he, hes⟩ := List.forall_mem_cons.1 hself
    rw [List.foldlM_cons, bind_assoc, he, evalProduct_cons]
    exact mk_some_bind fun w => (pure_bind _ _).trans (ih hes _)

/-- The calls of the evaluation compute the value. -/
theorem computes_evalCall : Computes evalCall (eval (V := V)) := by
  intro self e hself
  -- the operands are asked for in the order in which they are evaluated
  cases e with
  | leaf n => rfl
  | number n => rfl
  | group es => exact foldlM_multiply hself _
  | binary op lhs rhs =>
    obtain ⟨hlhs, hrhs⟩ := List.forall_mem_cons.1 hself
    rw [evalCall, hlhs, List.forall_mem_singleton.1 hrhs, eval_binary]
    exact mk_some_bind fun v => mk_some_bind fun w => rfl
  | leading op rhs =>
    rw [evalCall, List.forall_mem_singleton.1 hself, eval_leading]
    exact mk_some_bind fun v => rfl
  | trailing op lhs =>
    rw [evalCall, List.forall_mem_singleton.1 hself, eval_trailing]
    exact mk_some_bind fun v => rfl
  | apply f arg =>
    rw [evalCall, List.forall_mem_singleton.1 hself, eval_apply]
    exact mk_some_bind fun v => rfl

/-- **The height is enough to evaluate** an expression, whether it has a value or not. -/
theorem within_evalCall {depth : Nat} {e : Expr V} (he : e.height ≤ depth) :
    within evalCall depth e = some e.eval :=
  computes_evalCall.within_eq_some he

/-- A step followed by others gives a value only if it gives one itself. -/
theorem bind_eq_mk_some_ok {ε α β : Type} {x : ExceptT ε Option α} {f : α → ExceptT ε Option β}
    {w : β} (h : (x >>= f) = .mk (some (.ok w))) :
    ∃ v, x = .mk (some (.ok v)) ∧ f v = .mk (some (.ok w)) := by
  cases x with
  | none => cases h
  | some result =>
    cases result with
    | error err => cases h
    | ok v => exact ⟨v, rfl, h⟩

/-- The loop over factors gives a value only if every factor has one. -/
theorem foldlM_multiply_eq_ok {self : Expr V → ExceptT (EvalError V) Option V}
    {es : List (Expr V)} {v w : V}
    (h : es.foldlM (fun product e => return Arithmetic.multiply product (← self e)) v =
      .mk (some (.ok w))) :
    ∀ e ∈ es, ∃ b, self e = some b ∧ ∃ x, b = .ok x := by
  induction es generalizing v with
  | nil => exact List.forall_mem_nil _
  | cons e es ih =>
    rw [List.foldlM_cons] at h
    obtain ⟨product, hproduct, h⟩ := bind_eq_mk_some_ok h
    obtain ⟨x, hx, -⟩ := bind_eq_mk_some_ok hproduct
    exact List.forall_mem_cons.2 ⟨⟨_, hx, x, rfl⟩, ih h⟩

/-- For a value all operands are needed; for an error those behind the first one are not. -/
theorem needs_evalCall : Needs (evalCall (V := V)) fun a => ∃ v, a = .ok v := by
  rintro self e _ h ⟨w, rfl⟩
  -- a value comes out only where all operands were asked for and gave theirs
  cases e with
  | leaf n => exact List.forall_mem_nil _
  | number n => exact List.forall_mem_nil _
  | group es => exact foldlM_multiply_eq_ok h
  | binary op lhs rhs =>
    obtain ⟨v, hv, h⟩ := bind_eq_mk_some_ok h
    obtain ⟨v', hv', -⟩ := bind_eq_mk_some_ok h
    exact List.forall_mem_cons.2 ⟨⟨_, hv, v, rfl⟩, List.forall_mem_singleton.2 ⟨_, hv', v', rfl⟩⟩
  | leading op rhs =>
    obtain ⟨v, hv, -⟩ := bind_eq_mk_some_ok h
    exact List.forall_mem_singleton.2 ⟨_, hv, v, rfl⟩
  | trailing op lhs =>
    obtain ⟨v, hv, -⟩ := bind_eq_mk_some_ok h
    exact List.forall_mem_singleton.2 ⟨_, hv, v, rfl⟩
  | apply f arg =>
    obtain ⟨v, hv, -⟩ := bind_eq_mk_some_ok h
    exact List.forall_mem_singleton.2 ⟨_, hv, v, rfl⟩

/-- **A value is found with no less than the height.** -/
theorem within_evalCall_eq_ok_iff {depth : Nat} {e : Expr V} {v : V} :
    within evalCall depth e = some (.ok v) ↔ e.height ≤ depth ∧ e.eval = .ok v :=
  computes_evalCall.within_eq_some_iff needs_evalCall ⟨v, rfl⟩

end Evaluation

/-! ## Describing and discarding -/

/-- A call of the description. -/
def describeCall (self : Expr V → Option String) : Expr V → Option String
  | .leaf n => n.text
  | .number n => n.text
  | .group factors => return "(" ++ String.intercalate "*" (← factors.mapM self) ++ ")"
  | .binary op lhs rhs => return "(" ++ (← self lhs) ++ op.text ++ (← self rhs) ++ ")"
  | .leading op rhs => return "(" ++ op.text ++ (← self rhs) ++ ")"
  | .trailing op lhs => return "(" ++ (← self lhs) ++ op.text ++ ")"
  | .apply f arg => return f.text ++ "(" ++ (← self arg) ++ ")"

/-- If all steps give their results, the loop gives the list of them. -/
theorem mapM_eq_some {α β : Type} {g : α → Option β} {f : α → β} {as : List α}
    (h : ∀ a ∈ as, g a = some (f a)) : as.mapM g = some (as.map f) := by
  induction as with
  | nil => rfl
  | cons a as ih =>
    obtain ⟨ha, has⟩ := List.forall_mem_cons.1 h
    rw [List.mapM_cons, ha, ih has]
    rfl

/-- The loop gives a list only if all steps give results. -/
theorem exists_of_mapM_eq_some {α β : Type} {g : α → Option β} {as : List α} {bs : List β}
    (h : as.mapM g = some bs) : ∀ a ∈ as, ∃ b, g a = some b := by
  induction as generalizing bs with
  | nil => exact List.forall_mem_nil _
  | cons a as ih =>
    rw [List.mapM_cons] at h
    obtain ⟨b, hb, h⟩ := Option.bind_eq_some_iff.1 h
    obtain ⟨bs', hbs, -⟩ := Option.bind_eq_some_iff.1 h
    exact List.forall_mem_cons.2 ⟨⟨b, hb⟩, ih hbs⟩

/-- The calls of the description compute the text. -/
theorem computes_describeCall : Computes describeCall (describe (V := V)) := by
  intro self e hself
  -- the texts of the operands are asked for from left to right, and then joined
  cases e with
  | leaf n => rfl
  | number n => rfl
  | group es =>
    have hes : ∀ o ∈ es, self o = some o.describe := hself
    rw [describeCall, mapM_eq_some hes, describe, describeAll_eq_map]
    rfl
  | binary op lhs rhs =>
    obtain ⟨hlhs, hrhs⟩ := List.forall_mem_cons.1 hself
    rw [describeCall, hlhs, List.forall_mem_singleton.1 hrhs, describe]
    rfl
  | leading op rhs =>
    rw [describeCall, List.forall_mem_singleton.1 hself, describe]
    rfl
  | trailing op lhs =>
    rw [describeCall, List.forall_mem_singleton.1 hself, describe]
    rfl
  | apply f arg =>
    rw [describeCall, List.forall_mem_singleton.1 hself, describe]
    rfl

/-- The description needs every operand. -/
theorem needs_describeCall : Needs (describeCall (V := V)) fun _ => True := by
  intro self e t h _
  -- every operand is written out, so every operand was asked for
  cases e with
  | leaf n => exact List.forall_mem_nil _
  | number n => exact List.forall_mem_nil _
  | group es =>
    obtain ⟨ts, hts, -⟩ := Option.bind_eq_some_iff.1 h
    exact fun o ho => (exists_of_mapM_eq_some hts o ho).imp fun _ h => ⟨h, trivial⟩
  | binary op lhs rhs =>
    obtain ⟨l, hl, h⟩ := Option.bind_eq_some_iff.1 h
    obtain ⟨r, hr, -⟩ := Option.bind_eq_some_iff.1 h
    exact List.forall_mem_cons.2 ⟨⟨l, hl, trivial⟩, List.forall_mem_singleton.2 ⟨r, hr, trivial⟩⟩
  | leading op rhs =>
    obtain ⟨r, hr, -⟩ := Option.bind_eq_some_iff.1 h
    exact List.forall_mem_singleton.2 ⟨r, hr, trivial⟩
  | trailing op lhs =>
    obtain ⟨l, hl, -⟩ := Option.bind_eq_some_iff.1 h
    exact List.forall_mem_singleton.2 ⟨l, hl, trivial⟩
  | apply f arg =>
    obtain ⟨a, ha, -⟩ := Option.bind_eq_some_iff.1 h
    exact List.forall_mem_singleton.2 ⟨a, ha, trivial⟩

/-- **An expression is described with no less than its height.** -/
theorem within_describeCall_eq_some_iff {depth : Nat} {e : Expr V} {t : String} :
    within describeCall depth e = some t ↔ e.height ≤ depth ∧ e.describe = t :=
  computes_describeCall.within_eq_some_iff needs_describeCall trivial

/-- A call of the discarding: the operands are discarded one after the other. -/
def discardCall (self : Expr V → Option Unit) (e : Expr V) : Option Unit := do
  let _ ← e.operands.mapM self
  return ()

/-- The calls of the discarding come to an end. -/
theorem computes_discardCall : Computes (discardCall (V := V)) fun _ => () := by
  intro self e hself
  rw [discardCall, mapM_eq_some hself]
  rfl

/-- The discarding needs every operand. -/
theorem needs_discardCall : Needs (discardCall (V := V)) fun _ => True := by
  intro self e _ h _
  obtain ⟨us, hus, -⟩ := Option.bind_eq_some_iff.1 h
  exact fun o ho => (exists_of_mapM_eq_some hus o ho).imp fun _ h => ⟨h, trivial⟩

/-- **An expression is discarded with no less than its height.** -/
theorem within_discardCall_eq_some_iff {depth : Nat} {e : Expr V} :
    within discardCall depth e = some () ↔ e.height ≤ depth :=
  (computes_discardCall.within_eq_some_iff needs_discardCall trivial).trans (and_iff_left rfl)

end Keypad.Expr
