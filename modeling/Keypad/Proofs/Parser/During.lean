import Keypad.Proofs.Parser.Fuel

/-! # What happens during a run

A parser **gives** an outcome if it comes to it with rules that call each other deep enough. While
it runs, its parts run as well, each on what the parts before it have left, and so do the rules that
it calls and their parts. This module says for every way of building parsers what the parser built
gives, and which parsers run **during** its run. -/

namespace Keypad.Parser

section

variable {I τ ρ ω α β : Type} [Input I τ] {rules : ρ → Parser I τ ρ ω ω}

/-! ## Outcomes without a bound on calls -/

/-- A parser **gives** an outcome on an input if it comes to it with calls of some depth. -/
def Gives (rules : ρ → Parser I τ ρ ω ω) (p : Parser I τ ρ ω α) (s : I) (o : Outcome I τ α) :
    Prop :=
  ∃ fuel, runFor rules fuel p s = some o

/-- Calls that may be deeper keep the outcome. -/
theorem runFor_mono {m n : Nat} (hmn : m ≤ n) {p : Parser I τ ρ ω α} {s : I} {o : Outcome I τ α}
    (h : runFor rules m p s = some o) : runFor rules n p s = some o :=
  run_extends (runRule_extends rules hmn) p s o h

/-- From some depth of calls on, every run comes to the outcome. -/
theorem Gives.eventually {p : Parser I τ ρ ω α} {s : I} {o : Outcome I τ α}
    (h : Gives rules p s o) : ∃ fuel, ∀ n, fuel ≤ n → runFor rules n p s = some o := by
  obtain ⟨fuel, ho⟩ := h
  exact ⟨fuel, fun n hn => runFor_mono hn ho⟩

section Build

variable {p : Parser I τ ρ ω α} {q : Parser I τ ρ ω β} {s s' mid : I} {a : α} {e : Failure I τ}

/-- Two parsers give their outcomes with calls of one depth. -/
theorem Gives.common {o : Outcome I τ α} {o' : Outcome I τ β} (h : Gives rules p s o)
    (h' : Gives rules q s' o') :
    ∃ fuel, runFor rules fuel p s = some o ∧ runFor rules fuel q s' = some o' := by
  obtain ⟨m, ho⟩ := h
  obtain ⟨n, ho'⟩ := h'
  exact ⟨max m n, runFor_mono (Nat.le_max_left m n) ho, runFor_mono (Nat.le_max_right m n) ho'⟩

/-- A parser gives at most one outcome. -/
theorem Gives.unique {o o' : Outcome I τ α} (h : Gives rules p s o) (h' : Gives rules p s o') :
    o = o' := by
  obtain ⟨fuel, ho, ho'⟩ := h.common h'
  exact Option.some.inj (ho.symm.trans ho')

/-- A parser that comes to an outcome whatever the rules do gives it. -/
theorem Gives.of_run {o : Outcome I τ α} (h : ∀ rule, run rule p s = some o) : Gives rules p s o :=
  ⟨0, h _⟩

/-- What follows from the outcome of one parser, whatever the rules do. -/
theorem Gives.step {o : Outcome I τ α} {o' : Outcome I τ β} (h : Gives rules p s o)
    (hstep : ∀ rule, run rule p s = some o → run rule q s' = some o') : Gives rules q s' o' := by
  obtain ⟨fuel, ho⟩ := h
  exact ⟨fuel, hstep _ ho⟩

/-- What follows from the outcomes of two parsers, whatever the rules do. -/
theorem Gives.step₂ {γ : Type} {r : Parser I τ ρ ω γ} {s'' : I} {o : Outcome I τ α}
    {o' : Outcome I τ β} {o'' : Outcome I τ γ} (h : Gives rules p s o) (h' : Gives rules q s' o')
    (hstep : ∀ rule, run rule p s = some o → run rule q s' = some o' →
      run rule r s'' = some o'') : Gives rules r s'' o'' := by
  obtain ⟨fuel, ho, ho'⟩ := h.common h'
  exact ⟨fuel, hstep _ ho ho'⟩

/-! ## What a parser gives by the way it is built -/

/-- A failure is not changed together with the output. -/
theorem Gives.map_error (h : Gives rules p s (.error e)) (f : α → β) :
    Gives rules (.map f p) s (.error e) :=
  h.step fun rule h => by
    rw [run, h]
    rfl

/-- After a failure nothing else runs. -/
theorem Gives.bind_error (h : Gives rules p s (.error e)) (f : α → Parser I τ ρ ω β) :
    Gives rules (.bind p f) s (.error e) :=
  h.step fun rule h => by rw [run, h]

/-- After a success the parser that its output chooses goes on. -/
theorem Gives.bind_ok {f : α → Parser I τ ρ ω β} {o : Outcome I τ β}
    (h : Gives rules p s (.ok (a, mid))) (hf : Gives rules (f a) mid o) :
    Gives rules (.bind p f) s o :=
  h.step₂ hf fun rule h hf => by
    rw [run, h]
    exact hf

/-- A failure is changed as is said. -/
theorem Gives.mapError_error (h : Gives rules p s (.error e)) (f : Failure I τ → Failure I τ) :
    Gives rules (.mapError f p) s (.error (f e)) :=
  h.step fun rule h => by
    rw [run, h]
    rfl

/-- From a fatal failure there is no recovery. -/
theorem Gives.recover_fatal (h : Gives rules p s (.error e)) (hfatal : e.kind.isFatal = true)
    (f : Failure I τ → Parser I τ ρ ω α) : Gives rules (.recover p f) s (.error e) :=
  h.step fun rule h => by
    rw [run, h]
    exact if_pos hfatal

/-- After any other failure the parser that it chooses starts on the same input. -/
theorem Gives.recover_error {f : Failure I τ → Parser I τ ρ ω α} {o : Outcome I τ α}
    (h : Gives rules p s (.error e)) (hfatal : e.kind.isFatal = false)
    (hf : Gives rules (f e) s o) : Gives rules (.recover p f) s o := by
  refine h.step₂ hf fun rule h hf => ?_
  rw [run, h]
  exact (if_neg (Bool.eq_false_iff.1 hfatal)).trans hf

/-- A fatal failure of a step is one of the whole repetition. -/
theorem Gives.many_fatal (h : Gives rules p s (.error e)) (hfatal : e.kind.isFatal = true)
    (allowEmpty : Bool) : Gives rules (.many p allowEmpty) s (.error e) := by
  refine h.step fun rule h => ?_
  rw [run, iterate, h]
  simp [hfatal]

/-- A repetition goes on after a step that made progress, and what that step gave comes first. A
failure later on is one of the whole repetition. -/
theorem Gives.many_step {o : Outcome I τ (List α)} (h : Gives rules p s (.ok (a, mid)))
    (hlt : Input.remaining mid < Input.remaining s) (hmany : Gives rules (.many p true) mid o)
    (allowEmpty : Bool) :
    Gives rules (.many p allowEmpty) s (o.map fun result => (a :: result.1, result.2)) := by
  refine h.step₂ hmany fun rule h hmany => ?_
  rw [run] at hmany ⊢
  rw [iterate, h]
  dsimp only
  rw [if_pos hlt, hmany]
  rfl

/-- A call gives what the rule gives, with one call more. -/
theorem Gives.call {r : ρ} {o : Outcome I τ ω} (h : Gives rules (rules r) s o) :
    Gives rules (.call r) s o := by
  obtain ⟨n, h⟩ := h
  exact ⟨n + 1, h⟩

/-- At the limit nothing is run, and the nesting is too deep. -/
theorem Gives.nested_limit {limit : Nat} {r : ρ} (h : limit ≤ Input.depth s) :
    Gives rules (.nested limit r) s (.error ⟨.tooDeep, s⟩) :=
  .of_run fun rule => by rw [run, if_pos h]

/-- A failure one level deeper is passed on as it is. -/
theorem Gives.nested_error {limit : Nat} {r : ρ} (hlt : Input.depth s < limit)
    (h : Gives rules (rules r) (Input.atDepth s (Input.depth s + 1)) (.error e)) :
    Gives rules (.nested limit r) s (.error e) := by
  obtain ⟨n, h⟩ := h
  refine ⟨n + 1, ?_⟩
  rw [runFor_rule] at h
  rw [runFor, run, if_neg (Nat.not_le.2 hlt), h]
  rfl

end Build

/-! ## Runs during a run -/

/-- The parser `q` runs on `s'` **during** the run of another parser on its input. -/
inductive RunsDuring (rules : ρ → Parser I τ ρ ω ω) {β : Type} (q : Parser I τ ρ ω β) (s' : I) :
    {α : Type} → Parser I τ ρ ω α → I → Prop
  /-- A parser runs during its own run. -/
  | self : RunsDuring rules q s' q s'
  | map {α γ : Type} {f : α → γ} {p : Parser I τ ρ ω α} {s : I} :
      RunsDuring rules q s' p s → RunsDuring rules q s' (.map f p) s
  | bind_first {α γ : Type} {p : Parser I τ ρ ω α} {f : α → Parser I τ ρ ω γ} {s : I} :
      RunsDuring rules q s' p s → RunsDuring rules q s' (.bind p f) s
  /-- What the first parser left is where the next one runs. -/
  | bind_next {α γ : Type} {p : Parser I τ ρ ω α} {f : α → Parser I τ ρ ω γ} {s mid : I} {a : α} :
      Gives rules p s (.ok (a, mid)) → RunsDuring rules q s' (f a) mid →
      RunsDuring rules q s' (.bind p f) s
  | mapError {α : Type} {f : Failure I τ → Failure I τ} {p : Parser I τ ρ ω α} {s : I} :
      RunsDuring rules q s' p s → RunsDuring rules q s' (.mapError f p) s
  | recover_first {α : Type} {p : Parser I τ ρ ω α} {f : Failure I τ → Parser I τ ρ ω α} {s : I} :
      RunsDuring rules q s' p s → RunsDuring rules q s' (.recover p f) s
  /-- After a failure that is not fatal another parser runs on the same input. -/
  | recover_next {α : Type} {p : Parser I τ ρ ω α} {f : Failure I τ → Parser I τ ρ ω α} {s : I}
      {e : Failure I τ} :
      Gives rules p s (.error e) → e.kind.isFatal = false → RunsDuring rules q s' (f e) s →
      RunsDuring rules q s' (.recover p f) s
  | many_first {α : Type} {p : Parser I τ ρ ω α} {allowEmpty : Bool} {s : I} :
      RunsDuring rules q s' p s → RunsDuring rules q s' (.many p allowEmpty) s
  /-- After a step that made progress a repetition goes on. -/
  | many_next {α : Type} {p : Parser I τ ρ ω α} {allowEmpty : Bool} {s mid : I} {a : α} :
      Gives rules p s (.ok (a, mid)) → Input.remaining mid < Input.remaining s →
      RunsDuring rules q s' (.many p true) mid → RunsDuring rules q s' (.many p allowEmpty) s
  | call {r : ρ} {s : I} : RunsDuring rules q s' (rules r) s → RunsDuring rules q s' (.call r) s
  /-- Where the limit is not reached a nested rule runs one level deeper. -/
  | nested {limit : Nat} {r : ρ} {s : I} :
      Input.depth s < limit →
      RunsDuring rules q s' (rules r) (Input.atDepth s (Input.depth s + 1)) →
      RunsDuring rules q s' (.nested limit r) s

/-! ## How parsers are built -/

/-- A parser is **built** by alternation and all the constructors, but changes failures only by
functions that are `allowed`. -/
inductive Built (allowed : (Failure I τ → Failure I τ) → Prop) :
    {α : Type} → Parser I τ ρ ω α → Prop
  | pure {α : Type} (a : α) : Built allowed (.pure a)
  | fail {α : Type} : Built allowed (.fail : Parser I τ ρ ω α)
  | satisfy {α : Type} (view : τ → Option α) (accepts : α → Bool) :
      Built allowed (.satisfy view accepts)
  | map {α γ : Type} {p : Parser I τ ρ ω α} (f : α → γ) : Built allowed p →
      Built allowed (.map f p)
  | bind {α γ : Type} {p : Parser I τ ρ ω α} {f : α → Parser I τ ρ ω γ} : Built allowed p →
      (∀ a, Built allowed (f a)) → Built allowed (.bind p f)
  | mapError {α : Type} {f : Failure I τ → Failure I τ} {p : Parser I τ ρ ω α} : allowed f →
      Built allowed p → Built allowed (.mapError f p)
  | recover {α : Type} {p : Parser I τ ρ ω α} {f : Failure I τ → Parser I τ ρ ω α} :
      Built allowed p → (∀ e, Built allowed (f e)) → Built allowed (.recover p f)
  /-- Alternation, which compares failures whatever else is allowed. -/
  | alternation {α : Type} {p q : Parser I τ ρ ω α} : Built allowed p → Built allowed q →
      Built allowed (.recover p fun left => .mapError left.further q)
  | many {α : Type} {p : Parser I τ ρ ω α} (allowEmpty : Bool) : Built allowed p →
      Built allowed (.many p allowEmpty)
  | call (r : ρ) : Built allowed (.call r)
  | nested (limit : Nat) (r : ρ) : Built allowed (.nested limit r)

/-- What a repetition repeats. -/
def repeated? {α : Type} : Parser I τ ρ ω α → Option (Σ β : Type, Parser I τ ρ ω β)
  | .many p _ => some ⟨_, p⟩
  | _ => none

/-- What a repetition repeats is built in the same way. -/
theorem Built.repeated {allowed : (Failure I τ → Failure I τ) → Prop} {p : Parser I τ ρ ω α}
    (hp : Built allowed p) {q : Σ β : Type, Parser I τ ρ ω β} (hq : p.repeated? = some q) :
    Built allowed q.2 := by
  cases hp with
  | many b hp =>
    obtain rfl := Option.some.inj hq
    exact hp
  | _ => cases hq

-- the outputs are lists, and lists of two types may be the same type for all that cases can tell
/-- The same for a repetition of a known type. -/
theorem Built.of_many {allowed : (Failure I τ → Failure I τ) → Prop} {p : Parser I τ ρ ω α}
    {allowEmpty : Bool} (h : Built allowed (.many p allowEmpty)) : Built allowed p :=
  Built.repeated h rfl

/-- An alternation is built as is allowed if its parsers are. -/
theorem Built.orElse {allowed : (Failure I τ → Failure I τ) → Prop} {p q : Parser I τ ρ ω α}
    (hp : Built allowed p) (hq : Built allowed q) : Built allowed (p.orElse q) :=
  .alternation hp hq

end

/-! ## Brackets around a digit -/

variable {I : Type} [Input I Char]

/-- **Brackets** around a digit, which are counted; so many may be open inside each other. -/
def brackets (limit : Nat) : Parser I Char Unit Nat Nat :=
  .orElse
    (.bind (.satisfy some fun c => c == '(') fun _ =>
      .bind (.nested limit ()) fun n => .map (fun _ => n + 1) (.satisfy some fun c => c == ')'))
    (.map (fun _ => 0) (.satisfy some Char.isDigit))

/-- Brackets change no failures but by alternation. -/
theorem brackets_built (allowed : (Failure I Char → Failure I Char) → Prop)
    (limit : Nat) : Built allowed (brackets (I := I) limit) := by
  refine .orElse (.bind (.satisfy _ _) fun _ => .bind (.nested _ _) fun n => ?_) ?_
  · exact .map _ (.satisfy _ _)
  · exact .map _ (.satisfy _ _)

end Keypad.Parser
