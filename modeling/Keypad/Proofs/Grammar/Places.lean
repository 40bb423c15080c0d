import Keypad.Grammar
import Keypad.Proofs.Parser.Discipline
import Keypad.Proofs.Parser.Fatality

/-! # Where parsing of keys stops

The grammar changes failures only by alternation, and so it has what every parser built in this way
has. An expression leaves the end of the keys it is parsed from, whether it succeeds or fails, so a
failure is always at a place in the keys that were typed. Nesting that is too deep anywhere in the
keys is what the whole parse fails with. -/

namespace Keypad.Grammar

open Keypad.Parser

variable {V : Type}

/-! ## The rules are built -/

section Rules

variable {allowed : (Failure (Stream (Key V)) (Key V) → Failure (Stream (Key V)) (Key V)) → Prop}

/-- A factor is built as is allowed if what is inside its brackets is. -/
theorem factor_built {inner : KeyParser V (Expr V)} (h : Built allowed inner) :
    Built allowed (factor inner) := by
  refine .orElse (.orElse ?_ (.map _ (.many false (.satisfy _ _)))) (.map _ (.satisfy _ _))
  refine .bind (.satisfy _ _) fun _ => .bind h fun arg => .bind (.satisfy _ _) fun _ => ?_
  exact .orElse (.map _ (.satisfy _ _)) (.pure arg)

/-- An operand is built as is allowed if the expressions inside it are. -/
theorem operand_built {reenter : Tier → KeyParser V (Expr V)} (h : ∀ t, Built allowed (reenter t))
    (t : Tier) : Built allowed (operand reenter t) := by
  cases t with
  | low => exact h .middle
  | middle => exact h .high
  | high => exact .map _ (.many false (factor_built (h .low)))

/-- A rule is built, with no other changes of failures than those in the expressions inside it. -/
theorem rule_built {reenter : Tier → KeyParser V (Expr V)} (h : ∀ t, Built allowed (reenter t))
    (t : Tier) : Built allowed (rule reenter t) := by
  refine .orElse (.bind (operand_built h t) fun rhs => ?_) ?_
  · refine .orElse (.orElse ?_ (.map _ (.satisfy _ _))) (.pure rhs)
    exact .bind (.satisfy _ _) fun _ => .map _ (h t)
  · exact .bind (.satisfy _ _) fun _ => .map _ (h t)

/-- **Every rule is built as is allowed**, whatever that is: the grammar changes no failures. -/
theorem capped_built (t : Tier) : Built allowed (capped (V := V) t) :=
  rule_built (fun t' => .nested maxNesting t') t

end Rules

/-! ## Running the grammar -/

/-- The rules of the grammar give its result. -/
theorem gives_expression (t : Tier) (s : Stream (Key V)) :
    Gives capped (capped t) s (expression t s) :=
  ⟨maxNesting, runFor_capped t s⟩

/-- **An expression leaves the end of its keys**: on success at the depth at which it began, on
failure at no smaller one. -/
theorem expression_stays (t : Tier) (s : Stream (Key V)) : Stays s (expression t s) :=
  (gives_expression t s).stays (fun t' => capped_built t') (capped_built t)

/-- Where the parse of some keys fails, a beginning of these keys is left, the last key in front. -/
theorem exists_take_of_parse_error {keys : List (Key V)} {e : Failure (Stream (Key V)) (Key V)}
    (h : parse keys = .error e) : ∃ k ≤ keys.length, e.rest.items = (keys.take k).reverse := by
  have hsuf : e.rest.items <:+ keys.reverse :=
    ((expression_stays .low (reversed keys)).complete h).1
  have hpre : e.rest.items.reverse <+: keys := by
    rw [← List.reverse_suffix, List.reverse_reverse]
    exact hsuf
  refine ⟨_, hpre.length_le, ?_⟩
  rw [← List.prefix_iff_eq_take.1 hpre, List.reverse_reverse]

/-- **Too deep nesting ends the parse**: if an expression is entered anywhere with all levels in
use, then this is the failure of the parse. -/
theorem parse_eq_tooDeep {keys : List (Key V)} {t : Tier} {s : Stream (Key V)}
    (h : RunsDuring capped (.nested maxNesting t) s (capped .low) (reversed keys))
    (hs : maxNesting ≤ s.depth) : parse keys = .error ⟨.tooDeep, s⟩ := by
  have hgives := gives_of_runsDuring (fun t' => capped_built t') (.nested_limit hs) rfl h
    (capped_built .low)
  rw [parse, (gives_expression .low (reversed keys)).unique hgives]
  rfl

end Keypad.Grammar
