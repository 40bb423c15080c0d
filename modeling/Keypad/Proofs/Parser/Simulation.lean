import Keypad.Proofs.Parser.Reading

/-! # Runs that differ in their nesting only

Two parsers may do the same except that one of them counts its nested calls and gives up when there
are too many. Wherever the counting one does not give up, both read the same or fail in the same way
at the same place. This carries over from the parts to every parser built from them, because a
fatal failure passes through all of them. -/

namespace Keypad.Parser

variable {τ ρ ρ' ω α β : Type}

/-- An outcome at depth `d` **matches** a result at depth `d'`: unless it is fatal, both are the
same apart from the depths. -/
inductive Matches (d d' : Nat) :
    Outcome (Stream τ) τ α → Option (Outcome (Stream τ) τ α) → Prop
  | fatal {e : Failure (Stream τ) τ} {result : Option (Outcome (Stream τ) τ α)} :
      e.kind.isFatal = true → Matches d d' (.error e) result
  | ok (a : α) (us : List τ) : Matches d d' (.ok (a, ⟨us, d⟩)) (some (.ok (a, ⟨us, d'⟩)))
  | error {k : FailureKind τ} (us : List τ) (n n' : Nat) : k.isFatal = false →
      Matches d d' (.error ⟨k, ⟨us, n⟩⟩) (some (.error ⟨k, ⟨us, n'⟩⟩))

/-- A success is matched by the same success. -/
theorem Matches.eq_ok {d d' : Nat} {a : α} {us : List τ}
    {result : Option (Outcome (Stream τ) τ α)} (h : Matches d d' (.ok (a, ⟨us, d⟩)) result) :
    result = some (.ok (a, ⟨us, d'⟩)) := by
  cases h
  rfl

/-- A failure that is not fatal is matched by a failure of the same kind at the same place. -/
theorem Matches.eq_error {d d' : Nat} {e : Failure (Stream τ) τ}
    {result : Option (Outcome (Stream τ) τ α)} (h : Matches d d' (.error e) result)
    (hfatal : e.kind.isFatal = false) :
    ∃ n, result = some (.error ⟨e.kind, ⟨e.rest.items, n⟩⟩) := by
  cases h with
  | fatal hfatal' => exact absurd hfatal' (Bool.eq_false_iff.1 hfatal)
  | error us n n' => exact ⟨n', rfl⟩

section Simulates

variable {rule : ρ → Stream τ → Option (Outcome (Stream τ) τ ω)}
  {rule' : ρ' → Stream τ → Option (Outcome (Stream τ) τ ω)} {d d' : Nat}

/-- The parser `p` at depth `d` **simulates** `p'` at depth `d'`: its outcomes match. -/
def Simulates (rule : ρ → Stream τ → Option (Outcome (Stream τ) τ ω))
    (rule' : ρ' → Stream τ → Option (Outcome (Stream τ) τ ω)) (d d' : Nat)
    (p : Parser (Stream τ) τ ρ ω α) (p' : Parser (Stream τ) τ ρ' ω α) : Prop :=
  ∀ ts o, run rule p ⟨ts, d⟩ = some o → Matches d d' o (run rule' p' ⟨ts, d'⟩)

/-- What reads nothing does the same at every depth. -/
theorem simulates_pure (a : α) : Simulates rule rule' d d' (.pure a) (.pure a) := by
  intro ts o ho
  obtain rfl := Option.some.inj ho
  exact .ok a ts

/-- Reading an item does the same at every depth. -/
theorem simulates_satisfy (view : τ → Option α) (accepts : α → Bool) :
    Simulates rule rule' d d' (.satisfy view accepts) (.satisfy view accepts) := by
  intro ts o ho
  obtain rfl := Option.some.inj ho
  rw [run]
  unfold take
  -- which item comes next does not depend on the depth
  cases ts with
  | nil => exact .error [] d d' rfl
  | cons t ts =>
    simp only [Stream.next?_cons]
    cases view t with
    | none => exact .error (t :: ts) d d' rfl
    | some a =>
      dsimp only
      split
      · exact .ok a ts
      · exact .error (t :: ts) d d' rfl

/-- Changed outputs match if they are changed alike. -/
theorem Simulates.map {p : Parser (Stream τ) τ ρ ω α} {p' : Parser (Stream τ) τ ρ' ω α}
    (h : Simulates rule rule' d d' p p') (f : α → β) :
    Simulates rule rule' d d' (.map f p) (.map f p') := by
  intro ts o ho
  rw [run] at ho ⊢
  obtain ⟨out, hout, rfl⟩ := Option.map_eq_some_iff.1 ho
  have hm := h ts out hout
  -- the other run is known by matching only, so its cases are those of the match
  generalize run rule' p' ⟨ts, d'⟩ = result at hm ⊢
  cases hm with
  | fatal hfatal => exact .fatal hfatal
  | ok a us => exact .ok (f a) us
  | error us n n' hfatal => exact .error us n n' hfatal

/-- Parsers one after the other are simulated one after the other. -/
theorem Simulates.bind {p : Parser (Stream τ) τ ρ ω α} {p' : Parser (Stream τ) τ ρ' ω α}
    {f : α → Parser (Stream τ) τ ρ ω β} {f' : α → Parser (Stream τ) τ ρ' ω β}
    (hp : Simulates rule rule' d d' p p') (hf : ∀ a, Simulates rule rule' d d' (f a) (f' a)) :
    Simulates rule rule' d d' (.bind p f) (.bind p' f') := by
  intro ts o ho
  rw [run] at ho ⊢
  cases hout : run rule p ⟨ts, d⟩ with
  | none =>
    rw [hout] at ho
    cases ho
  | some out =>
    rw [hout] at ho
    have hm := hp ts out hout
    generalize run rule' p' ⟨ts, d'⟩ = result at hm ⊢
    -- alike first runs, and then alike second runs on the same items
    cases hm with
    | ok a us => exact hf a us o ho
    | fatal hfatal =>
      obtain rfl := Option.some.inj ho
      exact .fatal hfatal
    | error us n n' hfatal =>
      obtain rfl := Option.some.inj ho
      exact .error us n n' hfatal

/-- Both alternations choose the same alternative. If both alternatives fail, the failures compare
in the same way, as neither is fatal and the items left are the same. -/
theorem Simulates.orElse {p q : Parser (Stream τ) τ ρ ω α} {p' q' : Parser (Stream τ) τ ρ' ω α}
    (hp : Simulates rule rule' d d' p p') (hq : Simulates rule rule' d d' q q') :
    Simulates rule rule' d d' (p.orElse q) (p'.orElse q') := by
  intro ts o ho
  rw [run_orElse] at ho ⊢
  cases hout : run rule p ⟨ts, d⟩ with
  | none =>
    rw [hout] at ho
    cases ho
  | some out =>
    rw [hout] at ho
    have hm := hp ts out hout
    generalize run rule' p' ⟨ts, d'⟩ = result at hm ⊢
    cases hm with
    | ok a us =>
      obtain rfl := Option.some.inj ho
      exact .ok a us
    | fatal hfatal =>
      dsimp only at ho
      rw [if_pos hfatal] at ho
      obtain rfl := Option.some.inj ho
      exact .fatal hfatal
    | error us n n' hfatal =>
      dsimp only at ho ⊢
      rw [if_neg (Bool.eq_false_iff.1 hfatal)] at ho ⊢
      -- both first alternatives failed here, so the second ones decide
      obtain ⟨out', hout', rfl⟩ := Option.map_eq_some_iff.1 ho
      have hm' := hq ts out' hout'
      generalize run rule' q' ⟨ts, d'⟩ = result' at hm' ⊢
      cases hm' with
      | ok a vs => exact .ok a vs
      | fatal hfatal' =>
        refine .fatal ?_
        rw [Failure.further, if_neg (Bool.eq_false_iff.1 hfatal), hfatal', Bool.true_or, if_pos rfl]
        exact hfatal'
      | error vs m m' hfatal' =>
        simp only [Option.map_some, mapError_error, Failure.further, hfatal, hfatal',
          Bool.false_or, Stream.remaining_eq, Bool.false_eq_true, if_false, decide_eq_true_eq]
        split
        · exact .error vs m m' hfatal'
        · exact .error us n n' hfatal

/-- Repetitions are simulated step by step. -/
theorem Simulates.many {p : Parser (Stream τ) τ ρ ω α} {p' : Parser (Stream τ) τ ρ' ω α}
    (hp : Simulates rule rule' d d' p p') (allowEmpty : Bool) :
    Simulates rule rule' d d' (.many p allowEmpty) (.many p' allowEmpty) := by
  intro ts o ho
  rw [run, iterate] at ho ⊢
  cases hout : run rule p ⟨ts, d⟩ with
  | none =>
    rw [hout] at ho
    cases ho
  | some out =>
    rw [hout] at ho
    have hm := hp ts out hout
    generalize run rule' p' ⟨ts, d'⟩ = result at hm ⊢
    cases hm with
    | fatal hfatal =>
      dsimp only at ho
      rw [hfatal, Bool.true_or, if_pos rfl] at ho
      obtain rfl := Option.some.inj ho
      exact .fatal hfatal
    | error us n n' hfatal =>
      dsimp only at ho ⊢
      rw [hfatal, Bool.false_or] at ho ⊢
      split at ho <;> obtain rfl := Option.some.inj ho
      · next h => exact if_pos h ▸ .error us n n' hfatal
      · next h => exact if_neg h ▸ .ok [] ts
    | ok a us =>
      dsimp only at ho ⊢
      rw [Stream.remaining_eq, Stream.remaining_eq] at ho ⊢
      by_cases hlt : us.length < ts.length
      · rw [if_pos hlt] at ho ⊢
        -- the items left are the same, so the other step shortened the input as well
        obtain ⟨out', hout', rfl⟩ := Option.map_eq_some_iff.1 ho
        have hm' := Simulates.many hp true us out' hout'
        rw [run] at hm'
        generalize iterate (run rule' p') true ⟨us, d'⟩ = result' at hm' ⊢
        cases hm' with
        | ok as vs => exact .ok (a :: as) vs
        | fatal hfatal => exact .fatal hfatal
        | error vs m m' hfatal => exact .error vs m m' hfatal
      · rw [if_neg hlt] at ho ⊢
        obtain rfl := Option.some.inj ho
        exact .ok [a] us
termination_by ts => ts.length
decreasing_by assumption

/-- A nested call simulates a call that is not counted, if the rule does one level deeper. -/
theorem simulates_nested {limit : Nat} {r : ρ} {r' : ρ'}
    (h : d < limit → Simulates rule rule' (d + 1) d' (.call r) (.call r')) :
    Simulates rule rule' d d' (.nested limit r) (.call r') := by
  intro ts o ho
  rw [run, Stream.depth_eq] at ho
  -- at the limit the limited run gives up, which is allowed
  by_cases hl : limit ≤ d
  · rw [if_pos hl] at ho
    obtain rfl := Option.some.inj ho
    exact .fatal rfl
  · rw [if_neg hl, Stream.atDepth_eq] at ho
    obtain ⟨out, hout, rfl⟩ := Option.map_eq_some_iff.1 ho
    have hm := h (Nat.not_le.1 hl) ts out hout
    generalize run rule' (.call r') ⟨ts, d'⟩ = result at hm ⊢
    cases hm with
    | fatal hfatal => exact .fatal hfatal
    | ok a us => exact .ok a us
    | error us n n' hfatal => exact .error us n n' hfatal

end Simulates

end Keypad.Parser
