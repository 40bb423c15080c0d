import Keypad.Parser.Basic

/-! # What a parser reads and what it refuses

A run that succeeds **reads** the part of the input before the rest it returns, and a run that fails
without being fatal **refuses** the input. For every way of building parsers this module says what
the parser built reads and refuses in terms of its parts, so that no later proof opens a run. -/

namespace Keypad.Parser

variable {τ ρ ω α β : Type} {rule : ρ → Stream τ → Option (Outcome (Stream τ) τ ω)}

/-- The parser `p` **reads** the front of `s`: it succeeds with `a` and leaves `rest`. -/
def Reads (rule : ρ → Stream τ → Option (Outcome (Stream τ) τ ω)) (p : Parser (Stream τ) τ ρ ω α)
    (s : Stream τ) (a : α) (rest : Stream τ) : Prop :=
  run rule p s = some (.ok (a, rest))

/-- The parser `p` **refuses** `s`: it fails, but not fatally. -/
def Refuses (rule : ρ → Stream τ → Option (Outcome (Stream τ) τ ω))
    (p : Parser (Stream τ) τ ρ ω α) (s : Stream τ) : Prop :=
  ∃ e, run rule p s = some (.error e) ∧ e.kind.isFatal = false

/-- What a parser reads is determined by its input. -/
theorem Reads.unique {p : Parser (Stream τ) τ ρ ω α} {s rest rest' : Stream τ} {a a' : α}
    (h : Reads rule p s a rest) (h' : Reads rule p s a' rest') : a = a' ∧ rest = rest' := by
  have heq := Except.ok.inj (Option.some.inj (h.symm.trans h'))
  exact ⟨congrArg Prod.fst heq, congrArg Prod.snd heq⟩

/-- No parser reads what it refuses. -/
theorem Refuses.not_reads {p : Parser (Stream τ) τ ρ ω α} {s rest : Stream τ} {a : α}
    (h : Refuses rule p s) : ¬ Reads rule p s a rest := by
  obtain ⟨e, he, -⟩ := h
  intro hread
  cases he.symm.trans hread

/-! ## Single items -/

/-- What reads nothing leaves everything. -/
@[simp] theorem reads_pure {a b : α} {s rest : Stream τ} :
    Reads rule (.pure a) s b rest ↔ b = a ∧ rest = s := by
  constructor
  · intro h
    have heq := Except.ok.inj (Option.some.inj h)
    exact ⟨(congrArg Prod.fst heq).symm, (congrArg Prod.snd heq).symm⟩
  · rintro ⟨rfl, rfl⟩
    rfl

/-- What reads nothing does not refuse. -/
theorem not_refuses_pure {a : α} {s : Stream τ} :
    ¬ Refuses rule (.pure a : Parser (Stream τ) τ ρ ω α) s := by
  rintro ⟨e, he, -⟩
  cases he

/-- A single item is read when it is in front, has a view, and the view is accepted. -/
theorem reads_satisfy {view : τ → Option α} {accepts : α → Bool} {ts : List τ} {d : Nat} {a : α}
    {rest : Stream τ} :
    Reads rule (.satisfy view accepts) ⟨ts, d⟩ a rest ↔
      ∃ t, ts = t :: rest.items ∧ rest.depth = d ∧ view t = some a ∧ accepts a = true := by
  unfold Reads
  rw [run, take]
  -- read are the items that can be seen and are accepted
  cases ts with
  | nil => simp
  | cons t ts =>
    rw [Stream.next?_cons]
    dsimp only
    cases hv : view t with
    | none =>
      constructor
      · intro h
        cases h
      · rintro ⟨t', ht, -, hv', -⟩
        obtain ⟨rfl, -⟩ := List.cons.inj ht
        cases hv.symm.trans hv'
    | some b =>
      dsimp only
      by_cases hb : accepts b = true
      · rw [if_pos hb]
        constructor
        · intro h
          cases h
          exact ⟨t, rfl, rfl, hv, hb⟩
        · rintro ⟨t', ht, hd, hv', -⟩
          obtain ⟨rfl, rfl⟩ := List.cons.inj ht
          cases hv.symm.trans hv'
          rw [← hd]
      · rw [if_neg hb]
        constructor
        · intro h
          cases h
        · rintro ⟨t', ht, -, hv', ha⟩
          obtain ⟨rfl, -⟩ := List.cons.inj ht
          cases hv.symm.trans hv'
          exact absurd ha hb

/-- A single item is refused when no accepted item is in front. -/
theorem refuses_satisfy {view : τ → Option α} {accepts : α → Bool} {s : Stream τ} :
    Refuses rule (.satisfy view accepts) s ↔
      ∀ t ts a, s.items = t :: ts → view t = some a → accepts a = false := by
  obtain ⟨ts, d⟩ := s
  unfold Refuses
  rw [run, take]
  -- refused are the end of the input, what cannot be seen and what is not accepted
  cases ts with
  | nil => simp [FailureKind.isFatal]
  | cons t ts =>
    rw [Stream.next?_cons]
    dsimp only
    cases hv : view t with
    | none =>
      constructor
      · rintro - t' ts' a ht hv'
        obtain ⟨rfl, -⟩ := List.cons.inj ht
        cases hv.symm.trans hv'
      · exact fun _ => ⟨_, rfl, rfl⟩
    | some b =>
      dsimp only
      by_cases hb : accepts b = true
      · rw [if_pos hb]
        constructor
        · rintro ⟨e, he, -⟩
          cases he
        · intro h
          rw [h t ts b rfl hv] at hb
          cases hb
      · rw [if_neg hb]
        constructor
        · rintro - t' ts' a ht hv'
          obtain ⟨rfl, -⟩ := List.cons.inj ht
          cases hv.symm.trans hv'
          exact Bool.eq_false_iff.2 hb
        · exact fun _ => ⟨_, rfl, rfl⟩

/-! ## Changing outputs and going on -/

/-- A changed output comes from an output. -/
theorem reads_map {f : α → β} {p : Parser (Stream τ) τ ρ ω α} {s rest : Stream τ} {b : β} :
    Reads rule (.map f p) s b rest ↔ ∃ a, Reads rule p s a rest ∧ f a = b := by
  unfold Reads
  rw [run]
  cases run rule p s with
  | none => simp
  | some out =>
    cases out with
    | error e => simp [Except.map]
    | ok result =>
      obtain ⟨a, mid⟩ := result
      constructor
      · intro h
        cases h
        exact ⟨a, rfl, rfl⟩
      · rintro ⟨a', ha, rfl⟩
        cases ha
        rfl

/-- Changing the output changes no refusal. -/
theorem refuses_map {f : α → β} {p : Parser (Stream τ) τ ρ ω α} {s : Stream τ} :
    Refuses rule (.map f p) s ↔ Refuses rule p s := by
  unfold Refuses
  rw [run]
  cases run rule p s with
  | none => simp
  | some out => cases out <;> simp [Except.map]

/-- Two parsers one after the other read if the first one does and then the one that it chooses. -/
theorem reads_bind {p : Parser (Stream τ) τ ρ ω α} {f : α → Parser (Stream τ) τ ρ ω β}
    {s rest : Stream τ} {b : β} :
    Reads rule (.bind p f) s b rest ↔
      ∃ a mid, Reads rule p s a mid ∧ Reads rule (f a) mid b rest := by
  unfold Reads
  rw [run]
  -- the second parser has what the first one read, which is only one thing
  cases run rule p s with
  | none => simp
  | some out =>
    cases out with
    | error e => simp
    | ok result =>
      obtain ⟨a, mid⟩ := result
      constructor
      · intro h
        exact ⟨a, mid, rfl, h⟩
      · rintro ⟨a', mid', ha, h⟩
        cases ha
        exact h

/-- They refuse if the first one does, or the second one behind it. -/
theorem refuses_bind {p : Parser (Stream τ) τ ρ ω α} {f : α → Parser (Stream τ) τ ρ ω β}
    {s : Stream τ} :
    Refuses rule (.bind p f) s ↔
      Refuses rule p s ∨ ∃ a mid, Reads rule p s a mid ∧ Refuses rule (f a) mid := by
  unfold Refuses Reads
  rw [run]
  -- the second parser is only run where the first one has read something
  cases run rule p s with
  | none => simp
  | some out =>
    cases out with
    | error e => simp
    | ok result =>
      obtain ⟨a, mid⟩ := result
      constructor
      · intro h
        exact .inr ⟨a, mid, rfl, h⟩
      · rintro (⟨e, he, -⟩ | ⟨a', mid', ha, h⟩)
        · cases he
        · cases ha
          exact h

/-! ## Alternatives -/

/-- A success has no failure to change. -/
theorem mapError_ok {ε ε' : Type} (f : ε → ε') (a : α) :
    (Except.ok a : Except ε α).mapError f = .ok a := rfl

/-- A failure is changed as is said. -/
theorem mapError_error {ε ε' : Type} (f : ε → ε') (e : ε) :
    (Except.error e : Except ε α).mapError f = .error (f e) := rfl

/-- The second alternative is read only where the first one is refused. -/
theorem reads_orElse {p q : Parser (Stream τ) τ ρ ω α} {s rest : Stream τ} {a : α} :
    Reads rule (p.orElse q) s a rest ↔
      Reads rule p s a rest ∨ Refuses rule p s ∧ Reads rule q s a rest := by
  unfold Refuses Reads
  rw [run_orElse]
  cases run rule p s with
  | none => simp
  | some out =>
    cases out with
    | ok result => simp
    | error e =>
      -- after a fatal failure the second alternative is not tried
      cases hfatal : e.kind.isFatal with
      | true => simp [hfatal]
      | false =>
        simp only [hfatal]
        cases run rule q s with
        | none => simp
        | some out' => cases out' <;> simp [mapError_ok, mapError_error, hfatal]

/-- An alternation refuses if both its parsers do. -/
theorem refuses_orElse {p q : Parser (Stream τ) τ ρ ω α} {s : Stream τ} :
    Refuses rule (p.orElse q) s ↔ Refuses rule p s ∧ Refuses rule q s := by
  unfold Refuses
  rw [run_orElse]
  cases run rule p s with
  | none => simp
  | some out =>
    cases out with
    | ok result => simp
    | error e =>
      cases hfatal : e.kind.isFatal with
      | true => simp [hfatal]
      | false =>
        simp only [hfatal]
        cases run rule q s with
        | none => simp
        | some out' =>
          cases out' with
          | ok result => simp [mapError_ok]
          | error e' =>
            cases hfatal' : e'.kind.isFatal with
            | true => simp [mapError_error, Failure.further, hfatal, hfatal']
            | false =>
              -- whichever failure is reported, it is not fatal
              rcases Failure.further_eq_or e e' with h | h <;>
                simp [mapError_error, h, hfatal, hfatal']

/-! ## Repetition -/

/-- Where the step is refused, a repetition that may be empty reads nothing. -/
theorem reads_many_nil {p : Parser (Stream τ) τ ρ ω α} {s : Stream τ} (h : Refuses rule p s) :
    Reads rule (.many p true) s [] s := by
  obtain ⟨e, he, hfatal⟩ := h
  unfold Reads
  rw [run, iterate, he]
  simp [hfatal]

/-- A repetition goes on after a step that shortens the input. -/
theorem reads_many_cons {p : Parser (Stream τ) τ ρ ω α} {s mid rest : Stream τ} {a : α}
    {as : List α} {allowEmpty : Bool} (h : Reads rule p s a mid)
    (hlt : mid.items.length < s.items.length) (hmany : Reads rule (.many p true) mid as rest) :
    Reads rule (.many p allowEmpty) s (a :: as) rest := by
  unfold Reads at *
  rw [run] at hmany ⊢
  rw [iterate, h]
  dsimp only
  rw [Stream.remaining_eq, Stream.remaining_eq, if_pos hlt, hmany]
  rfl

/-- A repetition ends with a step that does not shorten the input. -/
theorem reads_many_last {p : Parser (Stream τ) τ ρ ω α} {s mid : Stream τ} {a : α}
    {allowEmpty : Bool} (h : Reads rule p s a mid) (hlt : ¬ mid.items.length < s.items.length) :
    Reads rule (.many p allowEmpty) s [a] mid := by
  unfold Reads at *
  rw [run, iterate, h]
  dsimp only
  rw [Stream.remaining_eq, Stream.remaining_eq, if_neg hlt]

/-- A repetition that must not be empty is refused where its step is. -/
theorem refuses_many {p : Parser (Stream τ) τ ρ ω α} {s : Stream τ} (h : Refuses rule p s) :
    Refuses rule (.many p false) s := by
  obtain ⟨e, he, hfatal⟩ := h
  refine ⟨e, ?_, hfatal⟩
  rw [run, iterate, he]
  simp

/-- What a repetition reads: nothing, where its step is refused, or what its step reads and then,
if that shortened the input, what the repetition reads after it. -/
theorem reads_many {p : Parser (Stream τ) τ ρ ω α} {s rest : Stream τ} {as : List α}
    {allowEmpty : Bool} (h : Reads rule (.many p allowEmpty) s as rest) :
    (Refuses rule p s ∧ as = [] ∧ rest = s ∧ allowEmpty = true) ∨
      ∃ a mid as', Reads rule p s a mid ∧ as = a :: as' ∧
        (mid.items.length < s.items.length ∧ Reads rule (.many p true) mid as' rest ∨
          ¬ mid.items.length < s.items.length ∧ as' = [] ∧ rest = mid) := by
  unfold Reads at h
  rw [run, iterate] at h
  cases hp : run rule p s with
  | none =>
    rw [hp] at h
    cases h
  | some out =>
    rw [hp] at h
    cases out with
    | error e =>
      dsimp only at h
      -- a repetition that succeeds without a step may be empty, and its step did not fail fatally
      by_cases he : (e.kind.isFatal || !allowEmpty) = true
      · rw [if_pos he] at h
        cases h
      · rw [if_neg he] at h
        cases h
        simp only [Bool.or_eq_true, Bool.not_eq_true', not_or, Bool.not_eq_true,
          Bool.not_eq_false] at he
        exact .inl ⟨⟨e, hp, he.1⟩, rfl, rfl, he.2⟩
    | ok result =>
      obtain ⟨a, mid⟩ := result
      dsimp only at h
      rw [Stream.remaining_eq, Stream.remaining_eq] at h
      -- the repetition goes on only if the step has taken something
      by_cases hlt : mid.items.length < s.items.length
      · rw [if_pos hlt] at h
        obtain ⟨out', hout', hmap⟩ := Option.map_eq_some_iff.1 h
        cases out' with
        | error e => cases hmap
        | ok result =>
          obtain ⟨as', rest'⟩ := result
          cases hmap
          exact .inr ⟨a, mid, as', hp, rfl, .inl ⟨hlt, hout'⟩⟩
      · rw [if_neg hlt] at h
        cases h
        exact .inr ⟨a, rest, [], hp, rfl, .inr ⟨hlt, rfl, rfl⟩⟩

/-! ## Rules -/

/-- A call reads what the rule reads. -/
theorem reads_call {r : ρ} {s rest : Stream τ} {a : ω} :
    Reads rule (.call r) s a rest ↔ rule r s = some (.ok (a, rest)) := Iff.rfl

/-- A nested rule is read one level deeper, and the level is given back after it. -/
theorem reads_nested {limit d : Nat} {r : ρ} {ts us : List τ} {a : ω} (h : ¬ limit ≤ d)
    (hread : Reads rule (.call r) ⟨ts, d + 1⟩ a ⟨us, d + 1⟩) :
    Reads rule (.nested limit r) ⟨ts, d⟩ a ⟨us, d⟩ := by
  unfold Reads
  rw [run, Stream.depth_eq, if_neg h, Stream.atDepth_eq, reads_call.1 hread]
  rfl

/-- Below the limit a nested rule refuses if the rule does, one level deeper. -/
theorem refuses_nested {limit d : Nat} {r : ρ} {ts : List τ} (h : ¬ limit ≤ d)
    (href : Refuses rule (.call r) ⟨ts, d + 1⟩) : Refuses rule (.nested limit r) ⟨ts, d⟩ := by
  obtain ⟨e, he, hfatal⟩ := href
  refine ⟨e, ?_, hfatal⟩
  rw [run] at he
  rw [run, Stream.depth_eq, if_neg h, Stream.atDepth_eq, he]
  rfl

end Keypad.Parser
