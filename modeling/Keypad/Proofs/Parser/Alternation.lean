import Keypad.Parser.Basic

/-! # Alternatives in a row

What alternatives give depends only on what each of them gives on the same input, and on their order,
but not on how they are grouped. Rules may be called that do anything, so this holds of parsers of
every kind. When all of them fail and none fatally, the failure that is reported is the **furthest**
one, which left the least input, and the first one of those. -/

namespace Keypad

namespace Failure

variable {I τ : Type} [Input I τ]

/-! ## Comparing several failures -/

/-- A fatal failure stands, whatever the other alternative does. -/
theorem further_of_fatal {e : Failure I τ} (h : e.kind.isFatal = true) (f : Failure I τ) :
    e.further f = e := by
  rw [further, if_pos h]

/-- A fatal failure wins from the right as well, unless there is one on the left. -/
theorem further_fatal {e f : Failure I τ} (he : e.kind.isFatal = false)
    (hf : f.kind.isFatal = true) : e.further f = f := by
  rw [further, he, hf]
  rfl

/-- A failure that got further replaces one that is not fatal. -/
theorem further_of_lt {e f : Failure I τ} (he : e.kind.isFatal = false)
    (hlt : Input.remaining f.rest < Input.remaining e.rest) : e.further f = f := by
  rw [further, he, decide_eq_true hlt, Bool.or_true]
  rfl

/-- Of failures that got as far as each other the first one stands. -/
theorem further_of_le {e f : Failure I τ} (hf : f.kind.isFatal = false)
    (hle : Input.remaining e.rest ≤ Input.remaining f.rest) : e.further f = e := by
  rw [further, hf, Bool.false_or, decide_eq_false (Nat.not_lt.2 hle)]
  split <;> rfl

/-- What is reported is fatal exactly if one of both is. -/
theorem isFatal_further (e f : Failure I τ) :
    (e.further f).kind.isFatal = (e.kind.isFatal || f.kind.isFatal) := by
  cases he : e.kind.isFatal with
  | true => rw [further_of_fatal he, he, Bool.true_or]
  | false =>
    cases hf : f.kind.isFatal with
    | true => rw [further_fatal he hf, hf, Bool.or_true]
    | false =>
      -- whichever is taken, it is not fatal
      rcases further_eq_or e f with h | h
      · rw [h, he, Bool.or_false]
      · rw [h, hf, Bool.or_false]

/-- **Comparing failures is associative**: ties go to the left and fatal failures win, whichever two
are compared first. -/
theorem further_assoc (e f g : Failure I τ) :
    (e.further f).further g = e.further (f.further g) := by
  cases he : e.kind.isFatal with
  | true => rw [further_of_fatal he, further_of_fatal he, further_of_fatal he]
  | false =>
    cases hf : f.kind.isFatal with
    | true => rw [further_fatal he hf, further_of_fatal hf, further_fatal he hf]
    | false =>
      cases hg : g.kind.isFatal with
      | true =>
        have hef : (e.further f).kind.isFatal = false := by rw [isFatal_further, he, hf]; rfl
        rw [further_fatal hef hg, further_fatal hf hg, further_fatal he hg]
      | false =>
        -- none is fatal, so the least rest decides, and among equal ones the first
        rcases Nat.lt_or_ge (Input.remaining f.rest) (Input.remaining e.rest) with hfe | hef
        · rcases Nat.lt_or_ge (Input.remaining g.rest) (Input.remaining f.rest) with hgf | hfg
          · rw [further_of_lt he hfe, further_of_lt hf hgf, further_of_lt he (Nat.lt_trans hgf hfe)]
          · rw [further_of_lt he hfe, further_of_le hg hfg, further_of_lt he hfe]
        · rcases Nat.lt_or_ge (Input.remaining g.rest) (Input.remaining f.rest) with hgf | hfg
          · rw [further_of_le hf hef, further_of_lt hf hgf]
          · rw [further_of_le hf hef, further_of_le hg hfg, further_of_le hf hef,
              further_of_le hg (Nat.le_trans hef hfg)]

/-- The failure `e` is the **furthest** one of some failures: none left less input, and those before
it left more. -/
def IsFurthest (e : Failure I τ) (es : List (Failure I τ)) : Prop :=
  ∃ before after, es = before ++ e :: after ∧
    (∀ f ∈ before, Input.remaining e.rest < Input.remaining f.rest) ∧
    ∀ f ∈ after, Input.remaining e.rest ≤ Input.remaining f.rest

/-- A failure alone is the furthest one. -/
theorem isFurthest_singleton (e : Failure I τ) : IsFurthest e [e] :=
  ⟨[], [], rfl, by simp, by simp⟩

/-- The furthest failure is one of them. -/
theorem IsFurthest.mem {e : Failure I τ} {es : List (Failure I τ)} (h : IsFurthest e es) :
    e ∈ es := by
  obtain ⟨before, after, rfl, -, -⟩ := h
  simp

/-- No failure left less of the input than the furthest one. -/
theorem IsFurthest.le {e f : Failure I τ} {es : List (Failure I τ)} (h : IsFurthest e es)
    (hf : f ∈ es) : Input.remaining e.rest ≤ Input.remaining f.rest := by
  obtain ⟨before, after, rfl, hbefore, hafter⟩ := h
  rcases List.mem_append.1 hf with hf | hf
  · exact Nat.le_of_lt (hbefore f hf)
  · rcases List.mem_cons.1 hf with rfl | hf
    · exact Nat.le_refl _
    · exact hafter f hf

/-- The furthest of some failures and more of them is found by comparing two. -/
theorem IsFurthest.append {e f : Failure I τ} {es fs : List (Failure I τ)}
    (he : IsFurthest e es) (hf : IsFurthest f fs) (hefatal : e.kind.isFatal = false)
    (hffatal : f.kind.isFatal = false) : IsFurthest (e.further f) (es ++ fs) := by
  rcases Nat.lt_or_ge (Input.remaining f.rest) (Input.remaining e.rest) with hlt | hle
  · -- the one on the right left less than all on the left
    have hes (g : Failure I τ) (hg : g ∈ es) :
        Input.remaining f.rest < Input.remaining g.rest := Nat.lt_of_lt_of_le hlt (he.le hg)
    obtain ⟨before, after, rfl, hbefore, hafter⟩ := hf
    rw [further_of_lt hefatal hlt]
    refine ⟨es ++ before, after, by rw [List.append_assoc], fun g hg => ?_, hafter⟩
    rcases List.mem_append.1 hg with hg | hg
    · exact hes g hg
    · exact hbefore g hg
  · -- none on the right left less, so the one on the left comes first
    have hfs (g : Failure I τ) (hg : g ∈ fs) :
        Input.remaining e.rest ≤ Input.remaining g.rest := Nat.le_trans hle (hf.le hg)
    obtain ⟨before, after, rfl, hbefore, hafter⟩ := he
    rw [further_of_le hffatal hle]
    refine ⟨before, after ++ fs, by rw [List.append_assoc, List.cons_append], hbefore,
      fun g hg => ?_⟩
    rcases List.mem_append.1 hg with hg | hg
    · exact hafter g hg
    · exact hfs g hg

end Failure

namespace Parser

variable {I τ ρ ω α : Type} [Input I τ]

/-! ## What an alternation gives -/

/-- What the first of two alternatives gives, or what the second one does if the first one fails and
not fatally; two failures are compared. -/
def either (o o' : Option (Outcome I τ α)) : Option (Outcome I τ α) :=
  match o with
  | some (.error e) =>
    if e.kind.isFatal then some (.error e) else o'.map (·.mapError e.further)
  | result => result

/-- An alternation gives what **either** of its parsers gives. -/
theorem run_orElse_eq_either (rule : ρ → I → Option (Outcome I τ ω)) (p q : Parser I τ ρ ω α)
    (s : I) : run rule (p.orElse q) s = either (run rule p s) (run rule q s) :=
  run_orElse rule p q s

/-- After a fatal failure the second alternative does not matter. -/
theorem either_fatal {e : Failure I τ} (h : e.kind.isFatal = true)
    (o : Option (Outcome I τ α)) : either (some (.error e)) o = some (.error e) :=
  if_pos h

/-- After another failure the second alternative decides, and its failure is compared with the first
one. -/
theorem either_error {e : Failure I τ} (h : e.kind.isFatal = false)
    (o : Option (Outcome I τ α)) :
    either (some (.error e)) o = o.map (·.mapError e.further) := by
  rw [either, h]
  rfl

/-- **Grouping alternatives** in one way or the other makes no difference to what they give. -/
theorem either_assoc (o o' o'' : Option (Outcome I τ α)) :
    either (either o o') o'' = either o (either o' o'') := by
  -- a result or a fatal failure on the left decides both groupings
  cases o with
  | none => rfl
  | some out =>
    cases out with
    | ok result => rfl
    | error e =>
      cases he : e.kind.isFatal with
      | true => rw [either_fatal he, either_fatal he, either_fatal he]
      | false =>
        rw [either_error he, either_error he]
        cases o' with
        | none => rfl
        | some out' =>
          cases out' with
          | ok result => rfl
          | error f =>
            show either (some (.error (e.further f))) o'' = _
            cases hf : f.kind.isFatal with
            | true =>
              -- a fatal failure in the middle decides both groupings
              rw [Failure.further_fatal he hf, either_fatal hf]
              exact congrArg (some ∘ Except.error) (Failure.further_fatal he hf).symm
            | false =>
              have hef : (e.further f).kind.isFatal = false := by
                rw [Failure.isFatal_further, he, hf, Bool.or_false]
              rw [either_error hf, either_error hef]
              cases o'' with
              | none => rfl
              | some out'' =>
                cases out'' with
                | ok result => rfl
                | error g =>
                  exact congrArg (some ∘ Except.error) (Failure.further_assoc e f g)

/-! ## Any number of alternatives -/

/-- **Alternatives** in a row, grouped in some way. -/
inductive Alternatives (I τ ρ ω α : Type) : Type 1 where
  /-- A single alternative. -/
  | one (p : Parser I τ ρ ω α)
  /-- The alternatives of two groups, those of the left one first. -/
  | both (left right : Alternatives I τ ρ ω α)

namespace Alternatives

/-- The parser that tries the alternatives. -/
def parser : Alternatives I τ ρ ω α → Parser I τ ρ ω α
  | one p => p
  | both left right => left.parser.orElse right.parser

/-- The alternatives in their order. -/
def parsers : Alternatives I τ ρ ω α → List (Parser I τ ρ ω α)
  | one p => [p]
  | both left right => left.parsers ++ right.parsers

/-- **The failure of alternatives** that all fail, but none fatally, is the furthest one. -/
theorem exists_run_parser_eq_error {rule : ρ → I → Option (Outcome I τ ω)} {s : I}
    (ps : Alternatives I τ ρ ω α) {es : List (Failure I τ)}
    (hes : ps.parsers.map (run rule · s) = es.map fun e => some (.error e))
    (hfatal : ∀ e ∈ es, e.kind.isFatal = false) :
    ∃ e, run rule ps.parser s = some (.error e) ∧ e.IsFurthest es := by
  -- on the grouping; the furthest failures of both sides are compared
  induction ps generalizing es with
  | one p =>
    obtain ⟨e, rfl, he⟩ := List.map_eq_singleton_iff.1 (show es.map _ = [run rule p s] from hes.symm)
    exact ⟨e, he.symm, e.isFurthest_singleton⟩
  | both left right ihl ihr =>
    rw [parsers, List.map_append] at hes
    obtain ⟨es, fs, rfl, hleft, hright⟩ := List.map_eq_append_iff.1 hes.symm
    obtain ⟨e, he, hfurthest⟩ := ihl hleft.symm fun e he => hfatal e (List.mem_append_left _ he)
    obtain ⟨f, hf, hfurthest'⟩ := ihr hright.symm fun f hf => hfatal f (List.mem_append_right _ hf)
    have hefatal := hfatal e (List.mem_append_left _ hfurthest.mem)
    have hffatal := hfatal f (List.mem_append_right _ hfurthest'.mem)
    refine ⟨e.further f, ?_, hfurthest.append hfurthest' hefatal hffatal⟩
    rw [parser, run_orElse_eq_either, he, hf, either_error hefatal]
    rfl

end Alternatives

/-- An alternative that always fails adds nothing where failures do not leave more than there was. -/
theorem run_orElse_fail {rule : ρ → I → Option (Outcome I τ ω)} {p : Parser I τ ρ ω α} {s : I}
    (hp : ∀ e, run rule p s = some (.error e) → Input.remaining e.rest ≤ Input.remaining s) :
    run rule (p.orElse .fail) s = run rule p s := by
  rw [run_orElse_eq_either]
  cases h : run rule p s with
  | none => rfl
  | some out =>
    cases out with
    | ok result => rfl
    | error e =>
      cases he : e.kind.isFatal with
      | true => exact either_fatal he _
      | false =>
        rw [either_error he]
        exact congrArg (some ∘ Except.error) (Failure.further_of_le rfl (hp e h))

/-- **Alternation is associative** down to the failure it reports, with any rules and on any input.
Of alternatives that all fail, but none fatally, the furthest failure is reported, the first one on
a tie, however they are grouped. To fail is no alternative to a parser whose failures leave no more
than there was. -/
theorem alternation_assoc (rule : ρ → I → Option (Outcome I τ ω)) :
    (∀ (p q r : Parser I τ ρ ω α) (s : I),
      run rule ((p.orElse q).orElse r) s = run rule (p.orElse (q.orElse r)) s) ∧
    (∀ (ps : Alternatives I τ ρ ω α) (s : I) (es : List (Failure I τ)),
      ps.parsers.map (run rule · s) = es.map (fun e => some (.error e)) →
      (∀ e ∈ es, e.kind.isFatal = false) →
      ∃ e, run rule ps.parser s = some (.error e) ∧ e.IsFurthest es) ∧
    ∀ p : Parser I τ ρ ω α,
      (∀ s e, run rule p s = some (.error e) → Input.remaining e.rest ≤ Input.remaining s) →
      ∀ s, run rule (p.orElse .fail) s = run rule p s := by
  refine ⟨fun p q r s => ?_, fun ps s es => ps.exists_run_parser_eq_error, fun p hp s => ?_⟩
  · rw [run_orElse_eq_either, run_orElse_eq_either, run_orElse_eq_either, run_orElse_eq_either,
      either_assoc]
  · exact run_orElse_fail (hp s)

/-- Of three alternatives that read a digit before they fail, or nothing, the first one that got
further is reported. -/
theorem alternation_assoc_first_furthest :
    let rule : Unit → Stream Char → Option (Outcome (Stream Char) Char Unit) := fun _ _ => none
    let digit : Parser (Stream Char) Char Unit Unit Char := .satisfy some Char.isDigit
    let ps : Alternatives (Stream Char) Char Unit Unit Char :=
      .both (.one (.satisfy some (· == 'x')))
        (.both (.one (.bind digit fun _ => .satisfy some (· == 'a'))) (.one (.bind digit fun _ => .fail)))
    let es : List (Failure (Stream Char) Char) :=
      [⟨.rejected '1', ⟨['1', 'c'], 0⟩⟩, ⟨.rejected 'c', ⟨['c'], 0⟩⟩, ⟨.exhausted, ⟨['c'], 0⟩⟩]
    ps.parsers.map (run rule · ⟨['1', 'c'], 0⟩) = es.map (fun e => some (.error e)) ∧
    (∀ e ∈ es, e.kind.isFatal = false) ∧
    (∃ e, run rule ps.parser ⟨['1', 'c'], 0⟩ = some (.error e) ∧ e.IsFurthest es) ∧
    (∀ s e, run rule digit s = some (.error e) → Input.remaining e.rest ≤ Input.remaining s) ∧
    ∀ s, run rule (digit.orElse .fail) s = run rule digit s := by
  intro rule digit ps es
  have hes : ps.parsers.map (run rule · ⟨['1', 'c'], 0⟩) = es.map (fun e => some (.error e)) := rfl
  have hfatal : ∀ e ∈ es, e.kind.isFatal = false := by simp [es, FailureKind.isFatal]
  -- a single item that is refused was not taken
  have hdigit (s : Stream Char) (e : Failure (Stream Char) Char)
      (he : run rule digit s = some (.error e)) : Input.remaining e.rest ≤ Input.remaining s := by
    have htake := Option.some.inj he
    unfold take at htake
    split at htake
    · cases htake
      exact Nat.le_refl _
    · split at htake
      · cases htake
        exact Nat.le_refl _
      · split at htake
        · cases htake
        · cases htake
          exact Nat.le_refl _
  obtain ⟨-, hfurthest, hfail⟩ := alternation_assoc rule (α := Char)
  exact ⟨hes, hfatal, hfurthest ps _ es hes hfatal, hdigit, hfail digit hdigit⟩

end Parser

end Keypad
