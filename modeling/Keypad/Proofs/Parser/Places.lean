import Keypad.Proofs.Parser.Corresponding
import Keypad.Proofs.Parser.Discipline

/-! # The places of a run

While a parser runs on a lawful input, every parser that runs during it runs on an end of the input,
at no smaller depth, and stays there. On a cursor in range all these places are in range, so that
counting what remains and taking what is left are always possible. -/

namespace Keypad.Parser

open LawfulInput

section Lawful

variable {I τ ρ ω α β : Type} [Input I τ] [LawfulInput I] {rules : ρ → Parser I τ ρ ω ω}

/-- A parser **keeps to** an input if it is built from parsers that keep the rest of failures, or
changes the failures of such a parser into others that stay in the input. -/
def KeepsTo (s : I) : Parser I τ ρ ω α → Prop
  | .mapError f p =>
    Built KeepsRest p ∧
      ∀ e, Stays s (.error e : Outcome I τ α) → Stays s (.error (f e) : Outcome I τ α)
  | p => Built KeepsRest p

/-- What changes failures only in their kinds keeps to every input. -/
theorem Built.keepsTo {p : Parser I τ ρ ω α} (hp : Built KeepsRest p) (s : I) : KeepsTo s p := by
  cases p with
  | mapError f p =>
    cases hp with
    | mapError hf hp => exact ⟨hp, fun e => hf.stays⟩
  | _ => exact hp

/-- What keeps to an input stays in it. -/
theorem KeepsTo.stays (hrules : ∀ r, Built KeepsRest (rules r)) {p : Parser I τ ρ ω α} {s : I}
    (hp : KeepsTo s p) {o : Outcome I τ α} (ho : Gives rules p s o) : Stays s o := by
  cases p with
  | mapError f p =>
    obtain ⟨fuel, ho⟩ := ho
    obtain ⟨out, hout, rfl⟩ := Option.map_eq_some_iff.1 ho
    exact (Gives.stays hrules hp.1 ⟨fuel, hout⟩).mapError hp.2
  | _ => exact Gives.stays hrules hp ho

/-- What runs during a run keeps to its own input, which is an end of that of the run. -/
theorem keepsTo_of_runsDuring (hrules : ∀ r, Built KeepsRest (rules r)) {q : Parser I τ ρ ω β}
    {s' : I} {p : Parser I τ ρ ω α} {s : I} (h : RunsDuring rules q s' p s) (hp : KeepsTo s p) :
    KeepsTo s' q ∧ IsEnd s' s ∧ Input.depth s ≤ Input.depth s' := by
  -- from the whole run inwards: the parts of a parser keep to what they run on
  induction h with
  | self => exact ⟨hp, isEnd_refl _, Nat.le_refl _⟩
  | map _ ih =>
    cases (hp : Built KeepsRest _) with
    | map _ hp => exact ih (hp.keepsTo _)
  | bind_first _ ih =>
    cases (hp : Built KeepsRest _) with
    | bind hp _ => exact ih (hp.keepsTo _)
  | bind_next hread _ ih =>
    cases (hp : Built KeepsRest _) with
    | bind hp hf =>
      -- the second parser runs on what the first one left
      obtain ⟨hend, hdepth⟩ := Gives.stays hrules hp hread
      obtain ⟨hq, hend', hdepth'⟩ := ih ((hf _).keepsTo _)
      exact ⟨hq, isEnd_trans hend' hend, hdepth ▸ hdepth'⟩
  | mapError _ ih => exact ih (hp.1.keepsTo _)
  | recover_first _ ih =>
    cases (hp : Built KeepsRest _) with
    | recover hp _ => exact ih (hp.keepsTo _)
    | alternation hp _ => exact ih (hp.keepsTo _)
  | recover_next hleft _ _ ih =>
    cases (hp : Built KeepsRest _) with
    | recover _ hf => exact ih ((hf _).keepsTo _)
    | alternation hp hq =>
      -- the second alternative may report the failure of the first one, which is in the same input
      have hstays := Gives.stays hrules hp hleft
      exact ih ⟨hq, fun e he => stays_further hstays he⟩
  | many_first _ ih => exact ih ((Built.of_many hp).keepsTo _)
  | many_next hread _ _ ih =>
    have hp := Built.of_many hp
    obtain ⟨hend, hdepth⟩ := Gives.stays hrules hp hread
    obtain ⟨hq, hend', hdepth'⟩ := ih (.many true hp)
    exact ⟨hq, isEnd_trans hend' hend, hdepth ▸ hdepth'⟩
  | call _ ih => exact ih ((hrules _).keepsTo _)
  | nested _ _ ih =>
    obtain ⟨hq, hend, hdepth⟩ := ih ((hrules _).keepsTo _)
    rw [depth_atDepth] at hdepth
    exact ⟨hq, isEnd_trans hend (atDepth_isEnd _ _), Nat.le_of_succ_le hdepth⟩

end Lawful

/-! ## Streams and cursors -/

section Inputs

variable {τ ρ ω α : Type}

/-- What an outcome leaves of the input. -/
def leftover {I : Type} : Outcome I τ α → I
  | .ok (_, rest) => rest
  | .error e => e.rest

/-- An outcome that stays in a cursor in range leaves one. -/
theorem Stays.endOf {c : Cursor τ} {o : Outcome (Cursor τ) τ α} (h : Stays c o) (hc : c.InRange) :
    (leftover o).EndOf c := by
  cases o with
  | ok result => exact h.1 hc
  | error e => exact h.1 hc

/-- **Runs stay within the items.** A parser that is built from alternation and the constructors,
changing failures only in their kinds, with rules built in the same way, leaves the end of the
stream on which it runs: on success at the depth of the stream, on failure at no smaller one, and the
same holds when the whole input is required to be read. On a cursor in range it leaves a cursor with
the same items that is further on and in range, and so is every place that the run comes to, and
everything that is left there. -/
theorem stays_in_range :
    (∀ (rules : ρ → Parser (Stream τ) τ ρ ω ω) (p : Parser (Stream τ) τ ρ ω α) (s : Stream τ),
      (∀ r, Built KeepsRest (rules r)) → Built KeepsRest p →
        (∀ a rest, Gives rules p s (.ok (a, rest)) →
          rest.items <:+ s.items ∧ rest.depth = s.depth) ∧
        (∀ e, Gives rules p s (.error e) → e.rest.items <:+ s.items ∧ s.depth ≤ e.rest.depth) ∧
        ∀ o e, Gives rules p s o → complete o = .error e →
          e.rest.items <:+ s.items ∧ s.depth ≤ e.rest.depth) ∧
    ∀ (rules : ρ → Parser (Cursor τ) τ ρ ω ω) (p : Parser (Cursor τ) τ ρ ω α) (c : Cursor τ),
      (∀ r, Built KeepsRest (rules r)) → Built KeepsRest p → c.InRange →
        (∀ a rest, Gives rules p c (.ok (a, rest)) → rest.EndOf c ∧ rest.depth = c.depth) ∧
        (∀ e, Gives rules p c (.error e) → e.rest.EndOf c ∧ c.depth ≤ e.rest.depth) ∧
        (∀ o e, Gives rules p c o → complete o = .error e →
          e.rest.EndOf c ∧ c.depth ≤ e.rest.depth) ∧
        ∀ (β : Type) (q : Parser (Cursor τ) τ ρ ω β) (c' : Cursor τ), RunsDuring rules q c' p c →
          c'.InRange ∧ ∀ o, Gives rules q c' o → (leftover o).InRange := by
  refine ⟨fun rules p s hrules hp => ?_, fun rules p c hrules hp hc => ?_⟩
  · exact ⟨fun a rest h => h.stays hrules hp, fun e h => h.stays hrules hp,
      fun o e h he => (h.stays hrules hp).complete he⟩
  · refine ⟨fun a rest h => ?_, fun e h => ?_, fun o e h he => ?_, fun β q c' h => ?_⟩
    · obtain ⟨hend, hdepth⟩ := h.stays hrules hp
      exact ⟨hend hc, hdepth⟩
    · obtain ⟨hend, hdepth⟩ := h.stays hrules hp
      exact ⟨hend hc, hdepth⟩
    · obtain ⟨hend, hdepth⟩ := (h.stays hrules hp).complete he
      exact ⟨hend hc, hdepth⟩
    · -- wherever the run comes to, it is at an end of the input it began with
      obtain ⟨hq, hend, -⟩ := keepsTo_of_runsDuring hrules h (hp.keepsTo c)
      have hc' := (hend hc).inRange
      exact ⟨hc', fun o ho => ((hq.stays hrules ho).endOf hc').inRange⟩

/-- Brackets on a cursor correspond to brackets on the stream that it stands for. -/
theorem rulesCorrespond_brackets (limit : Nat) :
    RulesCorrespond Cursor.stream id id (fun _ : Unit => brackets limit) fun _ => brackets limit := by
  have hφ := Cursor.inputMap_stream (τ := Char)
  have hview (c : Char) : some (id c) = (some c).map id := rfl
  intro rule rule' hcalls _
  refine .orElse hφ (.bind (corresponds_satisfy hφ hview fun _ => rfl) fun _ => ?_) ?_
  · exact .bind (corresponds_nested hφ (hcalls ()))
      fun n => .map (corresponds_satisfy hφ hview fun _ => rfl) fun _ => rfl
  · exact .map (corresponds_satisfy hφ hview fun _ => rfl) fun _ => rfl

/-- **Brackets are read on a cursor as on its stream**, with whatever is left of them. -/
theorem runRule_brackets_stream (limit fuel : Nat) (c : Cursor Char) :
    runRule (fun _ : Unit => brackets limit) fuel () c.stream =
      (runRule (fun _ : Unit => brackets limit) fuel () c).map (mapOutcome Cursor.stream id id) :=
  Cursor.runRule_stream (rulesCorrespond_brackets limit) fuel () c

/-- A bracket that holds no digit is refused inside, one level deeper and behind the bracket. -/
theorem brackets_refused_in_range :
    (⟨['7', '(', 'x'], 1, 0⟩ : Cursor Char).InRange ∧
      Gives (fun _ : Unit => brackets 2) (brackets 2) (⟨['7', '(', 'x'], 1, 0⟩ : Cursor Char)
        (.error ⟨.rejected 'x', ⟨['7', '(', 'x'], 2, 1⟩⟩) ∧
      (⟨['7', '(', 'x'], 2, 1⟩ : Cursor Char).EndOf ⟨['7', '(', 'x'], 1, 0⟩ := by
  have hc : (⟨['7', '(', 'x'], 1, 0⟩ : Cursor Char).InRange := by decide
  have hrefused : Gives (fun _ : Unit => brackets 2) (brackets 2)
      (⟨['7', '(', 'x'], 1, 0⟩ : Cursor Char)
      (.error ⟨.rejected 'x', ⟨['7', '(', 'x'], 2, 1⟩⟩) := ⟨1, rfl⟩
  have hbuilt := brackets_built (I := Cursor Char) KeepsRest 2
  have hstays := stays_in_range.2 _ _ _ (fun _ => hbuilt) hbuilt hc
  exact ⟨hc, hrefused, (hstays.2.1 _ hrefused).1⟩

end Inputs

end Keypad.Parser
