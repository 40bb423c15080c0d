import Keypad.Proofs.Parser.During

/-! # Greedy repetition

A repetition follows the **chain** of its steps: each one runs on what the one before it has left, as
long as they succeed and make progress. The chain is **cut** at the first step that fails or does not
shorten the input, and the cut decides what the repetition gives. Nothing is asked of the step, not
even that it reads anything: the test for progress alone ends the chain.

The rules that a step calls may be any functions, or parsers that call each other. Chains and cuts are
about what a step comes to, in one way or the other. -/

namespace Keypad.Parser

variable {I τ ρ ω α : Type} [Input I τ]

/-! ## The chain of steps -/

section Chain

/-- Steps that succeed and make progress **lead** from one input to another one, with these
outputs. -/
inductive Chain (Step : I → Outcome I τ α → Prop) : I → List α → I → Prop
  | nil (s : I) : Chain Step s [] s
  | cons {s mid s' : I} {a : α} {as : List α} :
      Step s (.ok (a, mid)) → Input.remaining mid < Input.remaining s →
      Chain Step mid as s' → Chain Step s (a :: as) s'

/-- What a repetition gives whose chain is **cut** at the input `s'`, after the outputs `as`. -/
inductive CutAt (Step : I → Outcome I τ α → Prop) (allowEmpty : Bool) (as : List α) (s' : I) :
    Outcome I τ (List α) → Prop
  /-- A fatal failure is passed on. -/
  | fatal {e : Failure I τ} : Step s' (.error e) → e.kind.isFatal = true →
      CutAt Step allowEmpty as s' (.error e)
  /-- A failure of the first step is passed on where something has to be read. -/
  | missing {e : Failure I τ} : Step s' (.error e) → as = [] → allowEmpty = false →
      CutAt Step allowEmpty as s' (.error e)
  /-- Any other failure ends the repetition where the step began. -/
  | failed {e : Failure I τ} : Step s' (.error e) → e.kind.isFatal = false →
      (as ≠ [] ∨ allowEmpty = true) → CutAt Step allowEmpty as s' (.ok (as, s'))
  /-- A step without progress is the last one. -/
  | stalled {a : α} {rest : I} : Step s' (.ok (a, rest)) →
      ¬ Input.remaining rest < Input.remaining s' →
      CutAt Step allowEmpty as s' (.ok (as ++ [a], rest))

variable {Step : I → Outcome I τ α → Prop}

/-- With an output before them the rest of the steps may be none. -/
theorem CutAt.cons {as : List α} {s' : I} {o : Outcome I τ (List α)}
    (h : CutAt Step true as s' o) (allowEmpty : Bool) (a : α) :
    CutAt Step allowEmpty (a :: as) s' (o.map fun result => (a :: result.1, result.2)) := by
  cases h with
  | fatal he hfatal => exact .fatal he hfatal
  | missing _ _ hempty => cases hempty
  | failed he hfatal _ => exact .failed he hfatal (.inl (List.cons_ne_nil a as))
  | stalled hread hstall => exact .stalled hread hstall

/-- Where a chain is cut does not depend on its first link, which is only put in front. -/
theorem CutAt.tail {allowEmpty : Bool} {a : α} {as : List α} {s' : I}
    {o : Outcome I τ (List α)} (h : CutAt Step allowEmpty (a :: as) s' o) :
    ∃ o', CutAt Step true as s' o' ∧ o = o'.map fun result => (a :: result.1, result.2) := by
  cases h with
  | @fatal e he hfatal => exact ⟨.error e, .fatal he hfatal, rfl⟩
  | missing _ hnil _ => cases hnil
  | failed he hfatal _ => exact ⟨.ok (as, s'), .failed he hfatal (.inr rfl), rfl⟩
  | @stalled b rest hread hstall => exact ⟨.ok (as ++ [b], rest), .stalled hread hstall, rfl⟩

/-- **Every chain is cut** if the step always comes to an outcome, because progress ends. -/
theorem exists_chain_cutAt (hstep : ∀ s, ∃ o, Step s o) (allowEmpty : Bool) (s : I) :
    ∃ as s' o, Chain Step s as s' ∧ CutAt Step allowEmpty as s' o := by
  -- on how much is left: a step that is followed by another one has taken something
  induction hlen : Input.remaining s using Nat.strongRecOn generalizing s allowEmpty with
  | ind len ih =>
    obtain ⟨out, hout⟩ := hstep s
    cases out with
    | error e =>
      cases hfatal : e.kind.isFatal with
      | true => exact ⟨[], s, _, .nil s, .fatal hout hfatal⟩
      | false =>
        cases allowEmpty with
        | false => exact ⟨[], s, _, .nil s, .missing hout rfl rfl⟩
        | true => exact ⟨[], s, _, .nil s, .failed hout hfatal (.inr rfl)⟩
    | ok result =>
      obtain ⟨a, mid⟩ := result
      by_cases hlt : Input.remaining mid < Input.remaining s
      · obtain ⟨as, s', o, hchain, hcut⟩ := ih _ (hlen ▸ hlt) true mid rfl
        exact ⟨a :: as, s', _, .cons hout hlt hchain, hcut.cons allowEmpty a⟩
      · exact ⟨[], s, _, .nil s, .stalled hout hlt⟩

/-- A repetition **follows the chain** of its steps on every input: some chain is cut, and where a
chain is cut the repetition comes to the outcome of the cut, and to no other one. -/
def FollowsChain (Step : I → Outcome I τ α → Prop) (allowEmpty : Bool)
    (Many : I → Outcome I τ (List α) → Prop) : Prop :=
  ∀ s, (∃ as s' o, Chain Step s as s' ∧ CutAt Step allowEmpty as s' o) ∧
    ∀ as s' o, Chain Step s as s' → CutAt Step allowEmpty as s' o → ∀ o', Many s o' ↔ o' = o

end Chain

/-! ## Rules that are any functions -/

section Runs

/-- What a parser **runs** to when the rules that it calls are these functions. -/
def Runs (rule : ρ → I → Option (Outcome I τ ω)) (p : Parser I τ ρ ω α) (s : I)
    (o : Outcome I τ α) : Prop :=
  run rule p s = some o

variable {rule : ρ → I → Option (Outcome I τ ω)} {p : Parser I τ ρ ω α}

/-- Where the first step cuts the chain the repetition runs to what is said there. -/
theorem CutAt.runs {allowEmpty : Bool} {s : I} {o : Outcome I τ (List α)}
    (h : CutAt (Runs rule p) allowEmpty [] s o) : Runs rule (.many p allowEmpty) s o := by
  rw [Runs, run, iterate]
  -- the ways a repetition ends are the ways out of `iterate`
  cases h with
  | fatal he hfatal =>
    rw [show run rule p s = _ from he]
    simp [hfatal]
  | missing he _ hempty =>
    rw [show run rule p s = _ from he]
    simp [hempty]
  | failed he hfatal hempty =>
    have hempty : allowEmpty = true := hempty.resolve_left fun hne => hne rfl
    rw [show run rule p s = _ from he]
    simp [hfatal, hempty]
  | stalled hread hstall =>
    rw [show run rule p s = _ from hread]
    exact if_neg hstall

/-- The cut at the end of a chain decides what the whole repetition runs to. -/
theorem Chain.runs {s s' : I} {as : List α} (h : Chain (Runs rule p) s as s') {allowEmpty : Bool}
    {o : Outcome I τ (List α)} (hcut : CutAt (Runs rule p) allowEmpty as s' o) :
    Runs rule (.many p allowEmpty) s o := by
  induction h generalizing allowEmpty o with
  | nil s => exact hcut.runs
  | @cons s mid s' a as hread hlt _ ih =>
    -- what is left of the chain is a repetition that may be empty
    obtain ⟨o', hcut', rfl⟩ := hcut.tail
    have hmany : iterate (run rule p) true mid = some o' := ih hcut'
    rw [Runs, run, iterate, show run rule p s = _ from hread]
    dsimp only
    rw [if_pos hlt, hmany]
    rfl

end Runs

/-! ## Rules that call each other -/

section Gives

variable {rules : ρ → Parser I τ ρ ω ω} {p : Parser I τ ρ ω α}

/-- All steps of a chain come to their outcomes with calls of one depth. -/
theorem Chain.eventually {s s' : I} {as : List α} (h : Chain (Gives rules p) s as s') :
    ∃ fuel, ∀ n, fuel ≤ n → Chain (Runs (runRule rules n) p) s as s' := by
  induction h with
  | nil s => exact ⟨0, fun n _ => .nil s⟩
  | cons hread hlt _ ih =>
    obtain ⟨m, hm⟩ := hread.eventually
    obtain ⟨n, hn⟩ := ih
    exact ⟨max m n, fun k hk =>
      .cons (hm k (Nat.le_trans (Nat.le_max_left m n) hk)) hlt
        (hn k (Nat.le_trans (Nat.le_max_right m n) hk))⟩

/-- From some depth of calls on, runs cut the chain at the same place. -/
theorem CutAt.eventually {allowEmpty : Bool} {as : List α} {s' : I} {o : Outcome I τ (List α)}
    (h : CutAt (Gives rules p) allowEmpty as s' o) :
    ∃ fuel, ∀ n, fuel ≤ n → CutAt (Runs (runRule rules n) p) allowEmpty as s' o := by
  -- a cut is about one step, so the depth of calls for that is enough
  cases h with
  | fatal he hfatal =>
    obtain ⟨fuel, he⟩ := he.eventually
    exact ⟨fuel, fun n hn => .fatal (he n hn) hfatal⟩
  | missing he hnil hempty =>
    obtain ⟨fuel, he⟩ := he.eventually
    exact ⟨fuel, fun n hn => .missing (he n hn) hnil hempty⟩
  | failed he hfatal hempty =>
    obtain ⟨fuel, he⟩ := he.eventually
    exact ⟨fuel, fun n hn => .failed (he n hn) hfatal hempty⟩
  | stalled hread hstall =>
    obtain ⟨fuel, hread⟩ := hread.eventually
    exact ⟨fuel, fun n hn => .stalled (hread n hn) hstall⟩

/-- The cut at the end of a chain decides what the whole repetition gives. -/
theorem Chain.gives {s s' : I} {as : List α} (h : Chain (Gives rules p) s as s')
    {allowEmpty : Bool} {o : Outcome I τ (List α)}
    (hcut : CutAt (Gives rules p) allowEmpty as s' o) : Gives rules (.many p allowEmpty) s o := by
  obtain ⟨m, hm⟩ := h.eventually
  obtain ⟨n, hn⟩ := hcut.eventually
  exact ⟨max m n, (hm _ (Nat.le_max_left m n)).runs (hn _ (Nat.le_max_right m n))⟩

end Gives

/-! ## What a repetition comes to -/

/-- **Greedy repetition** of a step that always comes to an outcome comes to one itself, which the
chain of steps determines: whatever functions are called as rules, and with rules that call each
other. -/
theorem many_follows_chain (p : Parser I τ ρ ω α) (allowEmpty : Bool) :
    (∀ rule : ρ → I → Option (Outcome I τ ω), (∀ s, ∃ o, Runs rule p s o) →
      FollowsChain (Runs rule p) allowEmpty (Runs rule (.many p allowEmpty))) ∧
    ∀ rules : ρ → Parser I τ ρ ω ω, (∀ s, ∃ o, Gives rules p s o) →
      FollowsChain (Gives rules p) allowEmpty (Gives rules (.many p allowEmpty)) := by
  refine ⟨fun rule hp s => ⟨exists_chain_cutAt hp allowEmpty s, fun as s' o hchain hcut o' => ?_⟩,
    fun rules hp s => ⟨exists_chain_cutAt hp allowEmpty s, fun as s' o hchain hcut o' => ?_⟩⟩
  · have hruns := hchain.runs hcut
    refine ⟨fun h => Option.some.inj (h.symm.trans hruns), ?_⟩
    rintro rfl
    exact hruns
  · have hgives := hchain.gives hcut
    refine ⟨fun h => h.unique hgives, ?_⟩
    rintro rfl
    exact hgives

/-- A rule that puts back what was read is called once, and digits are repeated up to the first other
character. -/
theorem many_follows_chain_digits :
    let full : Stream Char := ⟨['1', '2', 'x'], 0⟩
    let rewind : Unit → Stream Char → Option (Outcome (Stream Char) Char Unit) :=
      fun _ _ => some (.ok ((), full))
    let rules : Unit → Parser (Stream Char) Char Unit Unit Unit := fun _ => .fail
    let digit : Parser (Stream Char) Char Unit Unit Char := .satisfy some Char.isDigit
    (∀ s, ∃ o, Runs rewind (.call ()) s o) ∧ (∀ s, ∃ o, Gives rules digit s o) ∧
    (∀ o, Runs rewind (.many (.call ()) false) ⟨['x'], 0⟩ o ↔ o = .ok ([()], full)) ∧
    ∀ o, Gives rules (.many digit false) full o ↔ o = .ok (['1', '2'], ⟨['x'], 0⟩) := by
  intro full rewind rules digit
  have hrewind (s : Stream Char) : ∃ o, Runs rewind (.call ()) s o := ⟨.ok ((), full), rfl⟩
  have hdigit (s : Stream Char) : ∃ o, Gives rules digit s o := ⟨_, .of_run fun _ => rfl⟩
  have hone : Gives rules digit full (.ok ('1', ⟨['2', 'x'], 0⟩)) := .of_run fun _ => rfl
  have htwo : Gives rules digit ⟨['2', 'x'], 0⟩ (.ok ('2', ⟨['x'], 0⟩)) := .of_run fun _ => rfl
  have hother : Gives rules digit ⟨['x'], 0⟩ (.error ⟨.rejected 'x', ⟨['x'], 0⟩⟩) :=
    .of_run fun _ => rfl
  have hchain : Chain (Gives rules digit) full ['1', '2'] ⟨['x'], 0⟩ :=
    .cons hone (by decide) (.cons htwo (by decide) (.nil _))
  -- a step that goes back in the input has not taken anything
  have hstalled : CutAt (Runs rewind (.call ())) false [] ⟨['x'], 0⟩ (.ok ([()], full)) :=
    .stalled (show Runs rewind (.call ()) _ (.ok ((), full)) from rfl) (by decide)
  exact ⟨hrewind, hdigit,
    ((many_follows_chain (.call ()) false).1 rewind hrewind _).2 _ _ _ (.nil _) hstalled,
    ((many_follows_chain digit false).2 rules hdigit full).2 _ _ _ hchain
      (.failed hother rfl (.inl (by decide)))⟩

end Keypad.Parser
