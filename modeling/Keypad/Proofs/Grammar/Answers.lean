import Keypad.Calculation
import Keypad.Proofs.Grammar.Budget
import Keypad.Proofs.Parser.Corresponding

/-! # Parsing does not look at answers

An answer key is parsed by its place alone. Replacing the values that answer keys carry, or their
type, replaces them in the tree and in the failure and changes nothing else: the same keys are
accepted, with the same levels of nesting, and errors and descriptions have the same texts. -/

namespace Keypad

variable {V W : Type}

/-- Replacing an answer does not make a key part of a numeral. -/
@[simp] theorem Numeric.isNumeral_map (f : V → W) (n : Numeric V) :
    (n.map f).isNumeral = n.isNumeral := by
  cases n <;> rfl

/-- Replacing an answer keeps a constant one. -/
@[simp] theorem Numeric.isConstant_map (f : V → W) (n : Numeric V) :
    (n.map f).isConstant = n.isConstant := by
  cases n <;> rfl

/-- The text of a numeric key does not show the answer. -/
@[simp] theorem Numeric.text_map (f : V → W) (n : Numeric V) : (n.map f).text = n.text := by
  cases n with
  | constant c => cases c <;> rfl
  | _ => rfl

/-- Texts of key sequences do not show answers. -/
@[simp] theorem Key.textOf_map (f : V → W) (ks : List (Key V)) :
    Key.textOf (ks.map (Key.map f)) = Key.textOf ks := by
  induction ks with
  | nil => rfl
  | cons k ks ih => rw [List.map_cons, textOf_cons, textOf_cons, text_map, ih]

namespace Grammar

/-! ## The rules -/

section Rules

open Keypad.Parser

variable {calls : Calls V} {calls' : Calls W} {f : V → W}
  {reenter : Tier → KeyParser V (Expr V)} {reenter' : Tier → KeyParser W (Expr W)}

/-- A parser of keys with other answers corresponds to another one if its outcomes have the outputs
that `h` gives, and the answers replaced in places and failures. -/
abbrev KeysCorrespond (calls : Calls V) (calls' : Calls W) (f : V → W) {α α' : Type} (h : α → α')
    (p : KeyParser V α) (p' : KeyParser W α') : Prop :=
  Corresponds calls calls' (Stream.map (Key.map f)) (Key.map f) h p p'

/-- A key that is viewed without its answer. -/
theorem keysCorrespond_satisfy {α : Type} {view : Key V → Option α} {view' : Key W → Option α}
    (hview : ∀ k : Key V, view' (k.map f) = view k) (accepts : α → Bool) :
    KeysCorrespond calls calls' f id (.satisfy view accepts) (.satisfy view' accepts) :=
  corresponds_satisfy (Stream.inputMap_map _) (fun k => by rw [hview, Option.map_id_apply])
    fun _ => rfl

/-- A numeric key, chosen without looking at its answer. -/
theorem keysCorrespond_numeric {accepts : Numeric V → Bool} {accepts' : Numeric W → Bool}
    (haccepts : ∀ n : Numeric V, accepts' (n.map f) = accepts n) :
    KeysCorrespond calls calls' f (Numeric.map f) (.satisfy Key.numeric? accepts)
      (.satisfy Key.numeric? accepts') :=
  corresponds_satisfy (Stream.inputMap_map _) (Key.numeric?_map f) haccepts

/-- A numeral is made of the same keys before and after answers are replaced. -/
theorem map_numeralOf (ns : List (Numeric V)) :
    (numeralOf ns).map f = numeralOf (ns.map (Numeric.map f)) := by
  cases ns with
  | nil => rfl
  | cons n ns =>
    cases ns with
    | nil => rfl
    | cons n' ns =>
      refine congrArg Expr.number (Eq.trans ?_ (List.map_map (l := n :: n' :: ns)).symm)
      exact List.map_congr_left fun n _ => by cases n <;> rfl

/-- A factor corresponds to itself if what is inside its brackets does. -/
theorem keysCorrespond_factor {inner : KeyParser V (Expr V)} {inner' : KeyParser W (Expr W)}
    (h : KeysCorrespond calls calls' f (Expr.map f) inner inner') :
    KeysCorrespond calls calls' f (Expr.map f) (factor inner) (factor inner') := by
  have hφ := Stream.inputMap_map (Key.map f)
  refine .orElse hφ (.orElse hφ ?_ ?_) ?_
  · -- an expression in brackets, or a function of one
    refine .bind (keysCorrespond_satisfy (Key.closing?_map f) _) fun _ => .bind h fun arg => ?_
    refine .bind (keysCorrespond_satisfy (Key.opening?_map f) _) fun _ => ?_
    refine .orElse hφ (.map (keysCorrespond_satisfy (Key.function?_map f) _) fun _ => rfl) ?_
    exact corresponds_pure arg
  · refine .map (.many hφ (keysCorrespond_numeric (Numeric.isNumeral_map f)) false) fun ns => ?_
    rw [← List.map_reverse, map_numeralOf]
  · exact .map (keysCorrespond_numeric (Numeric.isConstant_map f)) fun _ => rfl

/-- An operand corresponds to itself if the expressions inside it do. -/
theorem keysCorrespond_operand
    (h : ∀ t, KeysCorrespond calls calls' f (Expr.map f) (reenter t) (reenter' t)) (t : Tier) :
    KeysCorrespond calls calls' f (Expr.map f) (operand reenter t) (operand reenter' t) := by
  cases t with
  | low => exact h .middle
  | middle => exact h .high
  | high =>
    refine .map (.many (Stream.inputMap_map _) (keysCorrespond_factor (h .low)) false) fun es => ?_
    rw [Expr.map, Expr.mapAll_eq_map, List.map_reverse]

/-- A rule corresponds to itself, if the expressions inside it do. -/
theorem keysCorrespond_rule
    (h : ∀ t, KeysCorrespond calls calls' f (Expr.map f) (reenter t) (reenter' t)) (t : Tier) :
    KeysCorrespond calls calls' f (Expr.map f) (rule reenter t) (rule reenter' t) := by
  have hφ := Stream.inputMap_map (Key.map f)
  refine .orElse hφ (.bind (keysCorrespond_operand h t) fun rhs => ?_) ?_
  · refine .orElse hφ (.orElse hφ ?_ ?_) (corresponds_pure rhs)
    · refine .bind (keysCorrespond_satisfy (Key.binary?_map f) _) fun op => ?_
      exact .map (h t) fun _ => rfl
    · exact .map (keysCorrespond_satisfy (Key.leading?_map f) _) fun _ => rfl
  · refine .bind (keysCorrespond_satisfy (Key.trailing?_map f) _) fun op => ?_
    exact .map (h t) fun _ => rfl

end Rules

/-! ## The grammar -/

/-- The rules of the grammar correspond to themselves: all that one calls is nested. -/
theorem rulesCorrespond_capped (f : V → W) :
    Parser.RulesCorrespond (Stream.map (Key.map f)) (Key.map f) (Expr.map f) capped capped :=
  fun _ _ hcalls t => keysCorrespond_rule
    (fun t' => Parser.corresponds_nested (Stream.inputMap_map _) (hcalls t')) t

/-- An expression is parsed in the same way whatever the answer keys carry. -/
theorem expression_map (f : V → W) (t : Tier) (s : Stream (Key V)) :
    expression t (s.map (Key.map f)) =
      Parser.mapOutcome (Stream.map (Key.map f)) (Key.map f) (Expr.map f) (expression t s) := by
  -- the expression is the run of its rule, with all further calls inside that one
  have h := (rulesCorrespond_capped f).runRule (maxNesting + 1) t s
  have hV : Parser.runRule capped (maxNesting + 1) t s = some (expression t s) := runFor_capped t s
  have hW : Parser.runRule capped (maxNesting + 1) t (s.map (Key.map f)) =
      some (expression t (s.map (Key.map f))) := runFor_capped t _
  rw [hV, hW] at h
  exact Option.some.inj h

/-- **Parsing commutes with replacing answers**, with the whole input required to be read. -/
theorem parse_map (f : V → W) (keys : List (Key V)) :
    parse (keys.map (Key.map f)) =
      ((parse keys).map (Expr.map f)).mapError
        (Failure.map (Stream.map (Key.map f)) (Key.map f)) := by
  have hrev : reversed (keys.map (Key.map f)) = (reversed keys).map (Key.map f) := by
    simp [reversed, Stream.map]
  rw [parse, parse, hrev, expression_map]
  cases expression .low (reversed keys) with
  | error e => rfl
  | ok result =>
    obtain ⟨e, rest⟩ := result
    simp only [Parser.mapOutcome, Parser.complete, (Stream.inputMap_map _).remaining]
    split <;> rfl

end Grammar

/-! ## Trees, errors and descriptions -/

/-- The keys that an error quotes are shown without their answers. -/
theorem ofFailure_map (f : V → W) (keys : List (Key V)) (e : Failure (Stream (Key V)) (Key V)) :
    ParseError.ofFailure (keys.map (Key.map f)) (e.map (Stream.map (Key.map f)) (Key.map f)) =
      ParseError.ofFailure keys e := by
  have hnear : nearKeys (keys.map (Key.map f)) (e.rest.items.map (Key.map f)) =
      (nearKeys keys e.rest.items).map (Key.map f) := by
    simp only [nearKeys, List.isEmpty_map]
    split <;> simp [List.map_take]
  exact congrArg ParseError.unexpected ((congrArg Key.textOf hnear).trans (Key.textOf_map f _))

/-- **Parsing commutes with replacing answers**: trees differ in the answers only, and errors do not
differ. -/
theorem Expr.ofKeys_map (f : V → W) (keys : List (Key V)) :
    Expr.ofKeys (keys.map (Key.map f)) = (Expr.ofKeys keys).map (Expr.map f) := by
  simp only [Expr.ofKeys, List.isEmpty_map]
  split
  · rfl
  · rw [Grammar.parse_map]
    cases Grammar.parse keys with
    | ok e => rfl
    | error e => exact congrArg Except.error (ofFailure_map f keys e)

mutual

/-- The description of an expression does not show what answers stand for. -/
theorem Expr.describe_map (f : V → W) : ∀ e : Expr V, (e.map f).describe = e.describe
  | .leaf n => Numeric.text_map f n
  | .number _ => rfl
  | .group es => by rw [Expr.map, describe, describe, describeAll_map f es]
  | .binary _ lhs rhs => by
    rw [Expr.map, describe, describe, describe_map f lhs, describe_map f rhs]
  | .leading _ rhs => by rw [Expr.map, describe, describe, describe_map f rhs]
  | .trailing _ lhs => by rw [Expr.map, describe, describe, describe_map f lhs]
  | .apply _ arg => by rw [Expr.map, describe, describe, describe_map f arg]

/-- Neither do the descriptions of factors. -/
theorem Expr.describeAll_map (f : V → W) :
    ∀ es : List (Expr V), describeAll (mapAll f es) = describeAll es
  | [] => rfl
  | e :: es => by rw [mapAll, describeAll, describeAll, describe_map f e, describeAll_map f es]

end

/-- Descriptions do not show what answers stand for. -/
theorem describe_map (f : V → W) (keys : List (Key V)) :
    describe (keys.map (Key.map f)) = describe keys := by
  rw [describe, describe, Expr.ofKeys_map]
  cases Expr.ofKeys keys with
  | error e => rfl
  | ok e => exact congrArg Except.ok (e.describe_map f)

end Keypad
