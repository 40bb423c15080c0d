import Keypad.Proofs.Parser.During

/-! # Fatal failures end the whole run

Whatever surrounds a parser that fails fatally, alternatives, repetitions with earlier successes or
parsers that recover from failures, the whole run fails in the same way: with the same kind, at the
same place and depth. In particular a nested rule that is entered with its limit reached decides the
outcome of the run. -/

namespace Keypad.Parser

variable {I τ ρ ω α β : Type} [Input I τ] {rules : ρ → Parser I τ ρ ω ω}

/-- A change of failures **keeps fatal ones** if it leaves them as they are. -/
def KeepsFatal (f : Failure I τ → Failure I τ) : Prop := ∀ e, e.kind.isFatal = true → f e = e

/-- A fatal failure of the second alternative is reported, because that of the first was not one. -/
theorem keepsFatal_further {left : Failure I τ} (h : left.kind.isFatal = false) :
    KeepsFatal left.further := by
  intro e he
  rw [Failure.further, if_neg (Bool.eq_false_iff.1 h), he, Bool.true_or, if_pos rfl]

/-- **A fatal failure is never recovered from or replaced**: the failure of any parser that runs
during a run is that of the whole run. -/
theorem gives_of_runsDuring (hrules : ∀ r, Built KeepsFatal (rules r)) {q : Parser I τ ρ ω β}
    {s' : I} {e : Failure I τ} (hq : Gives rules q s' (.error e)) (he : e.kind.isFatal = true)
    {p : Parser I τ ρ ω α} {s : I} (h : RunsDuring rules q s' p s) (hp : Built KeepsFatal p) :
    Gives rules p s (.error e) := by
  -- from the inner run outwards, one way of building parsers after the other
  induction h with
  | self => exact hq
  | map _ ih =>
    cases hp with
    | map _ hp => exact (ih hp).map_error _
  | bind_first _ ih =>
    cases hp with
    | bind hp _ => exact (ih hp).bind_error _
  | bind_next hread _ ih =>
    cases hp with
    | bind _ hf => exact hread.bind_ok (ih (hf _))
  | mapError _ ih =>
    cases hp with
    | mapError hf hp => exact hf e he ▸ (ih hp).mapError_error _
  | recover_first _ ih =>
    cases hp with
    | recover hp _ => exact (ih hp).recover_fatal he _
    | alternation hp _ => exact (ih hp).recover_fatal he _
  | recover_next hleft hfatal _ ih =>
    cases hp with
    | recover _ hf => exact hleft.recover_error hfatal (ih (hf _))
    | alternation _ hq =>
      exact hleft.recover_error hfatal (ih (.mapError (keepsFatal_further hfatal) hq))
  | many_first _ ih => exact (ih hp.of_many).many_fatal he _
  | many_next hread hlt _ ih => exact hread.many_step hlt (ih (.many true hp.of_many)) _
  | call _ ih => exact (ih (hrules _)).call
  | nested hlt _ ih => exact (ih (hrules _)).nested_error hlt

/-- **Reaching a limit ends the run.** If a nested rule is entered during a run with its limit
reached, then the run comes to an outcome, and its only outcome is that the nesting is too deep, at
the place and the depth at which the limit was reached; requiring that the whole input is read makes
no difference. -/
theorem run_tooDeep_of_nested (hrules : ∀ r, Built KeepsFatal (rules r)) {p : Parser I τ ρ ω α}
    (hp : Built KeepsFatal p) {limit : Nat} {r : ρ} {s s' : I}
    (h : RunsDuring rules (.nested limit r) s' p s) (hl : limit ≤ Input.depth s') :
    (∃ fuel, ∀ n, fuel ≤ n → runFor rules n p s = some (.error ⟨.tooDeep, s'⟩)) ∧
      ∀ o, Gives rules p s o →
        o = .error ⟨.tooDeep, s'⟩ ∧ complete o = .error ⟨.tooDeep, s'⟩ := by
  have hgives := gives_of_runsDuring hrules (.nested_limit hl) rfl h hp
  refine ⟨hgives.eventually, fun o ho => ?_⟩
  obtain rfl := ho.unique hgives
  exact ⟨rfl, rfl⟩

/-- After a digit that was read, a second bracket inside the first one is too many for a limit of
one. -/
theorem many_brackets_tooDeep :
    RunsDuring (fun _ : Unit => brackets 1) (.nested 1 ()) ⟨['7', ')', ')'], 1⟩
        (.many (brackets 1) true) (⟨['7', '(', '(', '7', ')', ')'], 0⟩ : Stream Char) ∧
      ∃ fuel, ∀ n, fuel ≤ n →
        runFor (fun _ : Unit => brackets 1) n (.many (brackets 1) true)
            ⟨['7', '(', '(', '7', ')', ')'], 0⟩ =
          some (.error ⟨.tooDeep, (⟨['7', ')', ')'], 1⟩ : Stream Char)⟩) := by
  have hdigit : Gives (fun _ : Unit => brackets 1) (brackets 1)
      (⟨['7', '(', '(', '7', ')', ')'], 0⟩ : Stream Char)
      (.ok (0, ⟨['(', '(', '7', ')', ')'], 0⟩)) := ⟨0, rfl⟩
  have hruns : RunsDuring (fun _ : Unit => brackets 1) (.nested 1 ()) ⟨['7', ')', ')'], 1⟩
      (.many (brackets 1) true) (⟨['7', '(', '(', '7', ')', ')'], 0⟩ : Stream Char) := by
    -- the digit is one step of the repetition, and the brackets begin the next one
    refine .many_next hdigit (by decide) (.many_first (.recover_first ?_))
    refine .bind_next (a := '(') ⟨0, rfl⟩ (.bind_first (.nested (by decide) (.recover_first ?_)))
    exact .bind_next (a := '(') ⟨0, rfl⟩ (.bind_first .self)
  have hbuilt := brackets_built (I := Stream Char) KeepsFatal 1
  exact ⟨hruns, (run_tooDeep_of_nested (fun _ => hbuilt) (.many true hbuilt) hruns (by decide)).1⟩

end Keypad.Parser
