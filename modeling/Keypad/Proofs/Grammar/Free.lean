import Keypad.Proofs.Grammar.Budget
import Keypad.Proofs.Parser.Fuel
import Keypad.Proofs.Parser.Simulation

/-! # The grammar without a limit

The rules of the grammar come to a result on every input even if nesting is not limited, because the
budget of the input bounds how deep they call each other. The limited grammar either exceeds its
limit or does what the **free** grammar does. So what the grammar reads is a question about the free
grammar, where no run fails fatally and depths do not matter. -/

namespace Keypad.Grammar

variable {V : Type}

/-! ## The limited grammar simulates the free one -/

section Simulation

variable {calls calls' : Calls V} {d d' : Nat} {reenter reenter' : Tier → KeyParser V (Expr V)}

/-- A factor is simulated if what is inside its brackets is. -/
theorem simulates_factor {inner inner' : KeyParser V (Expr V)}
    (h : Parser.Simulates calls calls' d d' inner inner') :
    Parser.Simulates calls calls' d d' (factor inner) (factor inner') := by
  refine .orElse (.orElse ?_ ?_) (.map (Parser.simulates_satisfy _ _) _)
  · refine .bind (Parser.simulates_satisfy _ _) fun _ => .bind h fun arg => ?_
    refine .bind (Parser.simulates_satisfy _ _) fun _ => ?_
    exact .orElse (.map (Parser.simulates_satisfy _ _) _) (Parser.simulates_pure arg)
  · exact .map (.many (Parser.simulates_satisfy _ _) false) _

/-- An operand is simulated if the expressions inside it are. -/
theorem simulates_operand (h : ∀ t, Parser.Simulates calls calls' d d' (reenter t) (reenter' t))
    (t : Tier) : Parser.Simulates calls calls' d d' (operand reenter t) (operand reenter' t) := by
  cases t with
  | low => exact h .middle
  | middle => exact h .high
  | high => exact .map (.many (simulates_factor (h .low)) false) _

/-- A rule simulates the same rule with other inner expressions, if those simulate each other. -/
theorem simulates_rule (h : ∀ t, Parser.Simulates calls calls' d d' (reenter t) (reenter' t))
    (t : Tier) : Parser.Simulates calls calls' d d' (rule reenter t) (rule reenter' t) := by
  refine .orElse (.bind (simulates_operand h t) fun rhs => ?_) ?_
  · refine .orElse (.orElse ?_ ?_) (Parser.simulates_pure rhs)
    · exact .bind (Parser.simulates_satisfy _ _) fun op => .map (h t) _
    · exact .map (Parser.simulates_satisfy _ _) _
  · exact .bind (Parser.simulates_satisfy _ _) fun op => .map (h t) _

/-- At every depth of calls the limited grammar simulates the one that is not. -/
theorem simulates_limited (limit fuel d d' : Nat) (t : Tier) :
    Parser.Simulates (Parser.runRule (limited (V := V) limit) fuel) (Parser.runRule uncapped fuel)
      d d' (.call t) (.call t) := by
  induction fuel generalizing d t with
  | zero =>
    intro ts o ho
    cases ho
  | succ fuel ih => exact simulates_rule (fun t' => Parser.simulates_nested fun _ => ih (d + 1) t') t

end Simulation

/-! ## Termination -/

/-- On every input the rules come to a result within the budget of the input. It is not fatal, and
a success leaves a suffix of the input. -/
theorem runRule_uncapped (t : Tier) (ts : List (Key V)) (d : Nat) :
    (∃ e us, Parser.runRule uncapped (weight ts + 3) t ⟨ts, d⟩ = some (.ok (e, ⟨us, d⟩)) ∧
        us <:+ ts) ∨
      ∃ e, Parser.runRule uncapped (weight ts + 3) t ⟨ts, d⟩ = some (.error e) ∧
        e.kind.isFatal = false := by
  -- with the budget as its limit the limited grammar never gives up
  have hsafe := safe_limited (V := V) (weight ts + 2) 0 (weight ts + 3) (by omega) t
  have hsim := simulates_limited (V := V) (weight ts + 2) (weight ts + 3) 0 d t ts
  rcases hsafe ts (by omega) with ⟨e, us, hread, hsuf⟩ | ⟨e, he, hfatal⟩
  · exact .inl ⟨e, us, (hsim _ hread).eq_ok, hsuf⟩
  · obtain ⟨n, hn⟩ := (hsim _ he).eq_error hfatal
    exact .inr ⟨_, hn, hfatal⟩

/-- Calls as deep as the keys can cost are enough for the grammar without a limit. -/
theorem isSome_runFor_uncapped (t : Tier) (input : Stream (Key V)) :
    (Parser.runFor uncapped (weight input.items + 2) (uncapped t) input).isSome = true := by
  obtain ⟨ts, d⟩ := input
  show (Parser.runRule uncapped (weight ts + 3) t ⟨ts, d⟩).isSome = true
  rcases runRule_uncapped t ts d with ⟨e, us, h, -⟩ | ⟨e, h, -⟩ <;> rw [h, Option.isSome_some]

/-- The **free** grammar: an expression of a tier at the front of a stream, without a limit on
nesting. -/
def free (t : Tier) (input : Stream (Key V)) : Outcome (Stream (Key V)) (Key V) (Expr V) :=
  (Parser.runFor uncapped (weight input.items + 2) (uncapped t) input).get
    (isSome_runFor_uncapped t input)

/-- The results of the free grammar, as rules to be called. -/
def freeCalls : Calls V := fun t input => some (free t input)

/-- With one call more the rule itself is run. -/
theorem runRule_weight (t : Tier) (input : Stream (Key V)) :
    Parser.runRule uncapped (weight input.items + 3) t input = some (free t input) :=
  (Option.some_get (isSome_runFor_uncapped t input)).symm

/-- Where calls of some depth come to a result, it is that of the free grammar. -/
theorem extends_freeCalls (fuel : Nat) :
    Parser.Extends (Parser.runRule (uncapped (V := V)) fuel) freeCalls := by
  intro t input o ho
  rw [freeCalls, Parser.runRule_unique ho (runRule_weight t input)]

/-- **The free grammar obeys its rules**: a tier reads what its rule reads. -/
theorem run_uncapped (t : Tier) (input : Stream (Key V)) :
    Parser.run freeCalls (uncapped t) input = some (free t input) :=
  Parser.run_extends (extends_freeCalls _) (uncapped t) input _ (runRule_weight t input)

/-- A rule reads what the parser that it names reads. -/
theorem reads_call_iff {t : Tier} {s rest : Stream (Key V)} {e : Expr V} :
    Parser.Reads freeCalls (.call t) s e rest ↔ Parser.Reads freeCalls (uncapped t) s e rest := by
  rw [Parser.reads_call, Parser.Reads, run_uncapped, freeCalls]

/-- A rule refuses what the parser that it names refuses. -/
theorem refuses_call_iff {t : Tier} {s : Stream (Key V)} :
    Parser.Refuses freeCalls (.call t) s ↔ Parser.Refuses freeCalls (uncapped t) s := by
  rw [Parser.Refuses, Parser.Refuses, run_uncapped, Parser.run, freeCalls]

/-- The free grammar never fails fatally. -/
theorem safe_free (limit d n : Nat) (t : Tier) : Safe (V := V) freeCalls limit d n (.call t) := by
  intro ts _
  rcases runRule_uncapped t ts d with ⟨e, us, h, hsuf⟩ | ⟨e, h, hfatal⟩
  · exact .inl ⟨e, us, extends_freeCalls _ t _ _ h, hsuf⟩
  · exact .inr ⟨e, extends_freeCalls _ t _ _ h, hfatal⟩

/-! ## Limited grammars against the free one -/

/-- **Limited nesting only adds failures**: an outcome of a limited grammar is fatal or that of the
free grammar. -/
theorem matches_free {limit fuel d : Nat} {t : Tier} {ts : List (Key V)}
    {o : Outcome (Stream (Key V)) (Key V) (Expr V)}
    (h : Parser.runRule (limited limit) fuel t ⟨ts, d⟩ = some o) (d' : Nat) :
    Parser.Matches d d' o (some (free t ⟨ts, d'⟩)) := by
  have hm := simulates_limited limit fuel d d' t ts o h
  rw [Parser.run] at hm
  cases hfree : Parser.runRule (uncapped (V := V)) fuel t ⟨ts, d'⟩ with
  | some o' =>
    rw [hfree, Parser.runRule_unique hfree (runRule_weight t ⟨ts, d'⟩)] at hm
    exact hm
  | none =>
    -- the free grammar calls deeper than `fuel` here, so the limited one has given up
    rw [hfree] at hm
    cases hm with
    | fatal hfatal => exact .fatal hfatal

/-- **Within the budget** an outcome of a limited grammar is not fatal. -/
theorem not_fatal_of_weight_le {limit fuel d : Nat} {t : Tier} {ts : List (Key V)}
    {e : Failure (Stream (Key V)) (Key V)} (hfuel : limit < d + fuel)
    (hweight : d + (2 - t.level) + weight ts ≤ limit)
    (h : Parser.runRule (limited limit) fuel t ⟨ts, d⟩ = some (.error e)) :
    e.kind.isFatal = false := by
  rcases safe_limited limit d fuel hfuel t ts hweight with ⟨e', us, hread, -⟩ | ⟨e', he', hfatal⟩
  · rw [Parser.reads_call, h] at hread
    cases hread
  · rw [Parser.run, h] at he'
    cases he'
    exact hfatal

/-- The capped grammar is the limited one with a fixed limit. -/
theorem runRule_expression (t : Tier) (s : Stream (Key V)) :
    Parser.runRule (limited maxNesting) (maxNesting + 1) t s = some (expression t s) := by
  rw [← Parser.runFor_rule]
  exact runFor_capped t s

/-- The capped grammar fails fatally or does what the free grammar does. -/
theorem expression_matches (t : Tier) (ts : List (Key V)) (d d' : Nat) :
    Parser.Matches d d' (expression t ⟨ts, d⟩) (some (free t ⟨ts, d'⟩)) :=
  matches_free (runRule_expression t ⟨ts, d⟩) d'

end Keypad.Grammar
