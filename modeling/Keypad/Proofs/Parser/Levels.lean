import Keypad.Proofs.Parser.Reading

/-! # The levels that a run needs

Where nesting is limited, a parser comes to its outcome if the limit leaves room for the levels that
it opens on its input, and **gives up** otherwise. How many levels that are is found from its parts:
parsers one after the other need as many as the one that needs most, and so do alternatives, because
an alternative that is left again has opened its levels all the same. A nested call needs one level
more than its rule. -/

namespace Keypad.Parser

variable {τ ρ ω α β : Type} {rule : ρ → Stream τ → Option (Outcome (Stream τ) τ ω)}

/-! ## Giving up -/

/-- The parser `p` **gives up** on `s`: it fails fatally. -/
def GivesUp (rule : ρ → Stream τ → Option (Outcome (Stream τ) τ ω))
    (p : Parser (Stream τ) τ ρ ω α) (s : Stream τ) : Prop :=
  ∃ e, run rule p s = some (.error e) ∧ e.kind.isFatal = true

section GivesUp

variable {s : Stream τ}

/-- A changed output does not keep a parser from giving up. -/
theorem givesUp_map {f : α → β} {p : Parser (Stream τ) τ ρ ω α} :
    GivesUp rule (.map f p) s ↔ GivesUp rule p s := by
  unfold GivesUp
  rw [run]
  cases run rule p s with
  | none => simp
  | some out => cases out <;> simp [Except.map]

/-- Two parsers one after the other give up if the first one does, or the second one behind it. -/
theorem givesUp_bind {p : Parser (Stream τ) τ ρ ω α} {f : α → Parser (Stream τ) τ ρ ω β} :
    GivesUp rule (.bind p f) s ↔
      GivesUp rule p s ∨ ∃ a mid, Reads rule p s a mid ∧ GivesUp rule (f a) mid := by
  unfold GivesUp Reads
  rw [run]
  cases run rule p s with
  | none => simp
  | some out =>
    cases out with
    | error e => simp
    | ok result =>
      obtain ⟨a, mid⟩ := result
      constructor
      · intro h
        exact .inr ⟨a, mid, rfl, h⟩
      · rintro (⟨e, he, -⟩ | ⟨a', mid', ha, h⟩)
        · cases he
        · cases ha
          exact h

/-- Giving up is not recovered from, whichever alternative it happens in. -/
theorem givesUp_orElse {p q : Parser (Stream τ) τ ρ ω α} :
    GivesUp rule (p.orElse q) s ↔ GivesUp rule p s ∨ Refuses rule p s ∧ GivesUp rule q s := by
  unfold GivesUp Refuses
  rw [run_orElse]
  cases run rule p s with
  | none => simp
  | some out =>
    cases out with
    | ok result => simp
    | error e =>
      -- giving up is fatal, so it ends the run, or else the second alternative decides
      cases hfatal : e.kind.isFatal with
      | true => simp [hfatal]
      | false =>
        simp only [hfatal]
        cases run rule q s with
        | none => simp [hfatal]
        | some out' =>
          cases out' with
          | ok result => simp [mapError_ok, hfatal]
          | error e' =>
            cases hfatal' : e'.kind.isFatal with
            | true => simp [mapError_error, Failure.further, hfatal, hfatal']
            | false =>
              -- neither failure is fatal, so the one that is reported is not
              rcases Failure.further_eq_or e e' with h | h <;>
                simp [mapError_error, h, hfatal, hfatal']

/-- A repetition gives up if its first step does. -/
theorem givesUp_many {p : Parser (Stream τ) τ ρ ω α} {allowEmpty : Bool} (h : GivesUp rule p s) :
    GivesUp rule (.many p allowEmpty) s := by
  obtain ⟨e, he, hfatal⟩ := h
  refine ⟨e, ?_, hfatal⟩
  rw [run, iterate, he]
  simp [hfatal]

/-- A repetition gives up if it does so after a step that made progress. -/
theorem givesUp_many_cons {p : Parser (Stream τ) τ ρ ω α} {mid : Stream τ} {a : α}
    {allowEmpty : Bool} (h : Reads rule p s a mid) (hlt : mid.items.length < s.items.length)
    (hmany : GivesUp rule (.many p true) mid) : GivesUp rule (.many p allowEmpty) s := by
  obtain ⟨e, he, hfatal⟩ := hmany
  refine ⟨e, ?_, hfatal⟩
  rw [run] at he ⊢
  rw [iterate, h]
  dsimp only
  rw [Stream.remaining_eq, Stream.remaining_eq, if_pos hlt, he]
  rfl

/-- A nested call gives up where no level is left, or where its rule does one level deeper. -/
theorem givesUp_nested {limit d : Nat} {r : ρ} {ts : List τ} :
    GivesUp rule (.nested limit r) ⟨ts, d⟩ ↔
      limit ≤ d ∨ GivesUp rule (.call r) ⟨ts, d + 1⟩ := by
  unfold GivesUp
  rw [run, run, Stream.depth_eq, Stream.atDepth_eq]
  by_cases hd : limit ≤ d
  · rw [if_pos hd]
    exact ⟨fun _ => .inl hd, fun _ => ⟨_, rfl, rfl⟩⟩
  · rw [if_neg hd, or_iff_right hd]
    cases rule r ⟨ts, d + 1⟩ with
    | none => simp
    | some out => cases out <;> simp [Except.map]

end GivesUp

/-! ## Outcomes with so many levels -/

section Levels

variable {limit d m n : Nat} {ts us vs : List τ} {a : α} {b : β}

/-- At depth `d` the parser `p` **reads with `n` levels** what is before `us` in `ts`: it does so if
the limit allows for `n` more levels, and gives up otherwise. -/
def ReadsWith (rule : ρ → Stream τ → Option (Outcome (Stream τ) τ ω)) (limit d n : Nat)
    (p : Parser (Stream τ) τ ρ ω α) (ts : List τ) (a : α) (us : List τ) : Prop :=
  (d + n ≤ limit → Reads rule p ⟨ts, d⟩ a ⟨us, d⟩) ∧ (limit < d + n → GivesUp rule p ⟨ts, d⟩)

/-- At depth `d` the parser `p` **refuses** `ts` **with `n` levels**: it does so if the limit allows
for `n` more levels, and gives up otherwise. -/
def RefusesWith (rule : ρ → Stream τ → Option (Outcome (Stream τ) τ ω)) (limit d n : Nat)
    (p : Parser (Stream τ) τ ρ ω α) (ts : List τ) : Prop :=
  (d + n ≤ limit → Refuses rule p ⟨ts, d⟩) ∧ (limit < d + n → GivesUp rule p ⟨ts, d⟩)

variable {p q : Parser (Stream τ) τ ρ ω α} {f : α → Parser (Stream τ) τ ρ ω β}

/-- The number of levels may be written otherwise. -/
theorem ReadsWith.levels_eq (h : ReadsWith rule limit d n p ts a us) (hn : n = m) :
    ReadsWith rule limit d m p ts a us :=
  hn ▸ h

/-- The number of levels may be written otherwise for a refusal, too. -/
theorem RefusesWith.levels_eq (h : RefusesWith rule limit d n p ts) (hn : n = m) :
    RefusesWith rule limit d m p ts :=
  hn ▸ h

/-- What is read without a call needs no levels. -/
theorem ReadsWith.of_reads (h : Reads rule p ⟨ts, d⟩ a ⟨us, d⟩) (hd : d ≤ limit) :
    ReadsWith rule limit d 0 p ts a us :=
  ⟨fun _ => h, fun hlt => absurd hd (Nat.not_le.2 hlt)⟩

/-- What is refused without a call needs no levels. -/
theorem RefusesWith.of_refuses (h : Refuses rule p ⟨ts, d⟩) (hd : d ≤ limit) :
    RefusesWith rule limit d 0 p ts :=
  ⟨fun _ => h, fun hlt => absurd hd (Nat.not_le.2 hlt)⟩

/-- Changing the output takes no levels. -/
theorem ReadsWith.map (h : ReadsWith rule limit d n p ts a us) (f : α → β) :
    ReadsWith rule limit d n (.map f p) ts (f a) us :=
  ⟨fun hle => reads_map.2 ⟨a, h.1 hle, rfl⟩, fun hlt => givesUp_map.2 (h.2 hlt)⟩

/-- A refusal takes the same levels if the output would be changed. -/
theorem RefusesWith.map (h : RefusesWith rule limit d n p ts) (f : α → β) :
    RefusesWith rule limit d n (.map f p) ts :=
  ⟨fun hle => refuses_map.2 (h.1 hle), fun hlt => givesUp_map.2 (h.2 hlt)⟩

/-- Two parsers one after the other take the levels of the one that needs more: the levels of the
first are closed again. -/
theorem ReadsWith.bind (hp : ReadsWith rule limit d m p ts a us)
    (hf : ReadsWith rule limit d n (f a) us b vs) :
    ReadsWith rule limit d (max m n) (.bind p f) ts b vs := by
  refine ⟨fun hle => ?_, fun hlt => givesUp_bind.2 ?_⟩
  · exact reads_bind.2 ⟨a, ⟨us, d⟩, hp.1 (by omega), hf.1 (by omega)⟩
  · by_cases hm : d + m ≤ limit
    · exact .inr ⟨a, ⟨us, d⟩, hp.1 hm, hf.2 (by omega)⟩
    · exact .inl (hp.2 (by omega))

/-- A refusal of the first parser takes only its levels. -/
theorem RefusesWith.bind_left (hp : RefusesWith rule limit d n p ts) :
    RefusesWith rule limit d n (.bind p f) ts :=
  ⟨fun hle => refuses_bind.2 (.inl (hp.1 hle)), fun hlt => givesUp_bind.2 (.inl (hp.2 hlt))⟩

/-- A refusal of the second parser takes the levels of both. -/
theorem RefusesWith.bind_right (hp : ReadsWith rule limit d m p ts a us)
    (hf : RefusesWith rule limit d n (f a) us) :
    RefusesWith rule limit d (max m n) (.bind p f) ts := by
  refine ⟨fun hle => ?_, fun hlt => givesUp_bind.2 ?_⟩
  · exact refuses_bind.2 (.inr ⟨a, ⟨us, d⟩, hp.1 (by omega), hf.1 (by omega)⟩)
  · by_cases hm : d + m ≤ limit
    · exact .inr ⟨a, ⟨us, d⟩, hp.1 hm, hf.2 (by omega)⟩
    · exact .inl (hp.2 (by omega))

/-- Where the first alternative is read, the second one opens no levels. -/
theorem ReadsWith.orElse_left (hp : ReadsWith rule limit d n p ts a us) :
    ReadsWith rule limit d n (p.orElse q) ts a us :=
  ⟨fun hle => reads_orElse.2 (.inl (hp.1 hle)), fun hlt => givesUp_orElse.2 (.inl (hp.2 hlt))⟩

/-- The levels of an alternative that is refused count as well. -/
theorem ReadsWith.orElse_right (hp : RefusesWith rule limit d m p ts)
    (hq : ReadsWith rule limit d n q ts a us) :
    ReadsWith rule limit d (max m n) (p.orElse q) ts a us := by
  refine ⟨fun hle => ?_, fun hlt => givesUp_orElse.2 ?_⟩
  · exact reads_orElse.2 (.inr ⟨hp.1 (by omega), hq.1 (by omega)⟩)
  · by_cases hm : d + m ≤ limit
    · exact .inr ⟨hp.1 hm, hq.2 (by omega)⟩
    · exact .inl (hp.2 (by omega))

/-- A refusal of both alternatives takes the levels of both. -/
theorem RefusesWith.orElse (hp : RefusesWith rule limit d m p ts)
    (hq : RefusesWith rule limit d n q ts) :
    RefusesWith rule limit d (max m n) (p.orElse q) ts := by
  refine ⟨fun hle => ?_, fun hlt => givesUp_orElse.2 ?_⟩
  · exact refuses_orElse.2 ⟨hp.1 (by omega), hq.1 (by omega)⟩
  · by_cases hm : d + m ≤ limit
    · exact .inr ⟨hp.1 hm, hq.2 (by omega)⟩
    · exact .inl (hp.2 (by omega))

/-- A repetition that ends at once takes the levels of the refusal that ends it. -/
theorem ReadsWith.many_nil (h : RefusesWith rule limit d n p ts) :
    ReadsWith rule limit d n (.many p true) ts [] ts :=
  ⟨fun hle => reads_many_nil (h.1 hle), fun hlt => givesUp_many (h.2 hlt)⟩

/-- A repetition of at least one step refuses if its first step does. -/
theorem RefusesWith.many (h : RefusesWith rule limit d n p ts) :
    RefusesWith rule limit d n (.many p false) ts :=
  ⟨fun hle => refuses_many (h.1 hle), fun hlt => givesUp_many (h.2 hlt)⟩

/-- A repetition takes the levels of the step that needs most. -/
theorem ReadsWith.many_cons {as : List α} {allowEmpty : Bool}
    (h : ReadsWith rule limit d m p ts a us) (hlt : us.length < ts.length)
    (hmany : ReadsWith rule limit d n (.many p true) us as vs) :
    ReadsWith rule limit d (max m n) (.many p allowEmpty) ts (a :: as) vs := by
  refine ⟨fun hle => ?_, fun hgt => ?_⟩
  · exact reads_many_cons (h.1 (by omega)) hlt (hmany.1 (by omega))
  · by_cases hm : d + m ≤ limit
    · exact givesUp_many_cons (h.1 hm) hlt (hmany.2 (by omega))
    · exact givesUp_many (h.2 (by omega))

/-- A nested call opens one level more than its rule. -/
theorem ReadsWith.nested {r : ρ} {a : ω}
    (h : d < limit → ReadsWith rule limit (d + 1) n (.call r) ts a us) :
    ReadsWith rule limit d (n + 1) (.nested limit r) ts a us := by
  refine ⟨fun hle => ?_, fun hlt => givesUp_nested.2 ?_⟩
  · exact reads_nested (by omega) ((h (by omega)).1 (by omega))
  · by_cases hd : limit ≤ d
    · exact .inl hd
    · exact .inr ((h (by omega)).2 (by omega))

/-- A refusal inside is one level deeper. -/
theorem RefusesWith.nested {r : ρ}
    (h : d < limit → RefusesWith rule limit (d + 1) n (.call r) ts) :
    RefusesWith rule limit d (n + 1) (.nested limit r) ts := by
  refine ⟨fun hle => ?_, fun hlt => givesUp_nested.2 ?_⟩
  · exact refuses_nested (by omega) ((h (by omega)).1 (by omega))
  · by_cases hd : limit ≤ d
    · exact .inl hd
    · exact .inr ((h (by omega)).2 (by omega))

end Levels

end Keypad.Parser
