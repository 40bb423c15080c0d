import Keypad.Parser.Basic

/-! # Deeper calls keep every result

A run has no result only where a rule that it calls has none. Rules that have more results give the
same run wherever it had a result, so allowing rules to call each other deeper never changes a
result, and two depths that both suffice give the same one. -/

namespace Keypad.Parser

variable {I τ ρ ω α : Type} [Input I τ]

/-- A family of rules **extends** another one: it has all of its results. -/
def Extends (rule rule' : ρ → I → Option (Outcome I τ ω)) : Prop :=
  ∀ r s o, rule r s = some o → rule' r s = some o

/-- A repetition keeps its result when its step keeps all results. -/
theorem iterate_extends {step step' : I → Option (Outcome I τ α)}
    (h : ∀ s o, step s = some o → step' s = some o) (allowEmpty : Bool) (s : I)
    (o : Outcome I τ (List α)) (ho : iterate step allowEmpty s = some o) :
    iterate step' allowEmpty s = some o := by
  rw [iterate] at ho ⊢
  cases hs : step s with
  | none => rw [hs] at ho; cases ho
  | some out =>
    rw [hs] at ho
    rw [h s out hs]
    -- both repetitions took the same step, so they go on or stop together
    cases out with
    | error e => exact ho
    | ok result =>
      obtain ⟨a, rest⟩ := result
      dsimp only at ho ⊢
      by_cases hlt : Input.remaining rest < Input.remaining s
      · rw [if_pos hlt] at ho ⊢
        obtain ⟨out', hout', rfl⟩ := Option.map_eq_some_iff.1 ho
        rw [iterate_extends h true rest out' hout', Option.map_some]
      · rw [if_neg hlt] at ho ⊢
        exact ho
termination_by Input.remaining s
decreasing_by assumption

/-- A run keeps its result when the rules are extended. -/
theorem run_extends {rule rule' : ρ → I → Option (Outcome I τ ω)} (h : Extends rule rule')
    (p : Parser I τ ρ ω α) (s : I) (o : Outcome I τ α) (ho : run rule p s = some o) :
    run rule' p s = some o := by
  -- induction on the parser; its parts are run on other inputs, so the input is generalized
  induction p generalizing s with
  | pure a => exact ho
  | fail => exact ho
  | satisfy view accepts => exact ho
  | map f p ih =>
    rw [run] at ho ⊢
    obtain ⟨out, hout, rfl⟩ := Option.map_eq_some_iff.1 ho
    rw [ih s out hout, Option.map_some]
  | bind p f ihp ihf =>
    rw [run] at ho ⊢
    cases hp : run rule p s with
    | none => rw [hp] at ho; cases ho
    | some out =>
      rw [hp] at ho
      rw [ihp s out hp]
      cases out with
      | error e => exact ho
      | ok result =>
        obtain ⟨a, rest⟩ := result
        exact ihf a rest o ho
  | mapError f p ih =>
    rw [run] at ho ⊢
    obtain ⟨out, hout, rfl⟩ := Option.map_eq_some_iff.1 ho
    rw [ih s out hout, Option.map_some]
  | recover p f ihp ihf =>
    rw [run] at ho ⊢
    cases hp : run rule p s with
    | none => rw [hp] at ho; cases ho
    | some out =>
      rw [hp] at ho
      rw [ihp s out hp]
      cases out with
      | ok result => exact ho
      | error e =>
        dsimp only at ho ⊢
        by_cases hfatal : e.kind.isFatal = true
        · rw [if_pos hfatal] at ho ⊢
          exact ho
        · rw [if_neg hfatal] at ho ⊢
          exact ihf e s o ho
  | many p allowEmpty ih =>
    rw [run] at ho ⊢
    exact iterate_extends ih allowEmpty s o ho
  | call r => exact h r s o ho
  | nested limit r =>
    rw [run] at ho ⊢
    by_cases hl : limit ≤ Input.depth s
    · rw [if_pos hl] at ho ⊢
      exact ho
    · rw [if_neg hl] at ho ⊢
      obtain ⟨out, hout, rfl⟩ := Option.map_eq_some_iff.1 ho
      rw [h r _ out hout, Option.map_some]

/-- The run of a rule, whose calls may be `fuel` deep, is a call that may be one deeper. -/
theorem runFor_rule (rules : ρ → Parser I τ ρ ω ω) (fuel : Nat) (r : ρ) (s : I) :
    runFor rules fuel (rules r) s = runRule rules (fuel + 1) r s := rfl

/-- Rules that may call each other deeper extend those that may not. -/
theorem runRule_extends (rules : ρ → Parser I τ ρ ω ω) {m n : Nat} (hmn : m ≤ n) :
    Extends (I := I) (runRule rules m) (runRule rules n) := by
  induction m generalizing n with
  | zero =>
    intro r s o ho
    cases ho
  | succ m ih =>
    intro r s o ho
    obtain ⟨n, rfl⟩ : ∃ k, n = k + 1 := ⟨n - 1, by omega⟩
    exact run_extends (ih (by omega)) (rules r) s o ho

/-- Two depths of calls that both suffice give the same result. -/
theorem runRule_unique {rules : ρ → Parser I τ ρ ω ω} {m n : Nat} {r : ρ} {s : I}
    {o o' : Outcome I τ ω} (h : runRule rules m r s = some o) (h' : runRule rules n r s = some o') :
    o = o' := by
  -- at the larger depth there are both results
  have hm := runRule_extends rules (Nat.le_max_left m n) r s o h
  have hn := runRule_extends rules (Nat.le_max_right m n) r s o' h'
  exact Option.some.inj (hm.symm.trans hn)

end Keypad.Parser
