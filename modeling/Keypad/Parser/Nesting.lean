import Keypad.Parser.Basic

/-! # Capped nesting ends every run

A parser is **capped** by a limit when it calls rules only through `nested`, and only with limits up
to that one. On a stream such a parser always comes to a result, as soon as rules may call each
other as deep as the limit says: every call raises the depth by one, and success gives the depth
back. -/

namespace Keypad

namespace Parser

variable {τ ρ ω α : Type}

/-- All rules are called through `nested` with a limit of at most `limit`. -/
def CappedBy {I τ ρ ω : Type} (limit : Nat) {α : Type} : Parser I τ ρ ω α → Prop
  | .pure _ => True
  | .fail => True
  | .satisfy _ _ => True
  | .map _ p => p.CappedBy limit
  | .bind p f => p.CappedBy limit ∧ ∀ a, (f a).CappedBy limit
  | .mapError _ p => p.CappedBy limit
  | .recover p f => p.CappedBy limit ∧ ∀ e, (f e).CappedBy limit
  | .many p _ => p.CappedBy limit
  | .call _ => False
  | .nested l _ => l ≤ limit

/-- There is a result, and if it is a success, then the input after it is at depth `d`. -/
def Settled (d : Nat) (result : Option (Outcome (Stream τ) τ α)) : Prop :=
  ∃ o, result = some o ∧ ∀ a rest, o = .ok (a, rest) → rest.depth = d

/-- A failure is settled at any depth. -/
theorem Settled.error {d : Nat} {e : Failure (Stream τ) τ} :
    Settled d (some (.error e : Outcome (Stream τ) τ α)) :=
  ⟨_, rfl, nofun⟩

/-- A success is settled at the depth of what it leaves. -/
theorem Settled.ok {a : α} {rest : Stream τ} :
    Settled rest.depth (some (.ok (a, rest) : Outcome (Stream τ) τ α)) :=
  ⟨_, rfl, fun _ _ h => by injection h with h; injection h with _ h; rw [h]⟩

/-- A result is settled if it is a failure, or a success at the right depth. -/
theorem Settled.cases {d : Nat} {result : Option (Outcome (Stream τ) τ α)}
    (h : Settled d result) :
    (∃ e, result = some (.error e)) ∨ ∃ a rest, result = some (.ok (a, rest)) ∧ rest.depth = d := by
  obtain ⟨o, rfl, ho⟩ := h
  match o, ho with
  | .error e, _ => exact .inl ⟨e, rfl⟩
  | .ok (a, rest), ho => exact .inr ⟨a, rest, rfl, ho a rest rfl⟩

/-- What is settled is a result. -/
theorem Settled.isSome {d : Nat} {result : Option (Outcome (Stream τ) τ α)}
    (h : Settled d result) : result.isSome = true := by
  obtain ⟨o, rfl, -⟩ := h
  rfl

/-- Reading an item is settled, because it keeps the depth. -/
theorem take_settled (view : τ → Option α) (accepts : α → Bool) (s : Stream τ) :
    Settled s.depth (some (take view accepts s)) := by
  obtain ⟨items, d⟩ := s
  unfold take
  cases items with
  | nil => exact .error
  | cons t ts =>
    simp only [Stream.next?_cons]
    split
    · exact .error
    · split
      · exact .ok
      · exact .error

/-- A repetition is settled if its steps are. The induction is on what remains, since every step but
the last reads something. -/
theorem iterate_settled {step : Stream τ → Option (Outcome (Stream τ) τ α)} {d : Nat}
    (hstep : ∀ s, s.depth = d → Settled d (step s)) (allowEmpty : Bool) (s : Stream τ)
    (hs : s.depth = d) : Settled d (iterate step allowEmpty s) := by
  rw [iterate]
  rcases (hstep s hs).cases with ⟨e, he⟩ | ⟨a, rest, hr, hd⟩
  · rw [he]
    dsimp only
    split
    · exact .error
    · exact hs ▸ .ok
  · rw [hr]
    dsimp only
    split
    · next hlt =>
      have : rest.items.length < s.items.length := hlt
      rcases (iterate_settled hstep true rest hd).cases with ⟨e, he⟩ | ⟨as, rest', hr', hd'⟩
      · rw [he]
        exact .error
      · rw [hr', ← hd']
        exact .ok
    · exact hd ▸ .ok
termination_by s.items.length
decreasing_by assumption

/-- A capped parser settles if the rules settle one level deeper. -/
theorem run_settled {rule : ρ → Stream τ → Option (Outcome (Stream τ) τ ω)} {limit d : Nat}
    (hrule : d < limit → ∀ r s, s.depth = d + 1 → Settled (d + 1) (rule r s)) {α : Type}
    (p : Parser (Stream τ) τ ρ ω α) (hp : p.CappedBy limit) (s : Stream τ) (hs : s.depth = d) :
    Settled d (run rule p s) := by
  induction p generalizing s with
  | pure a => exact hs ▸ .ok
  | fail => exact .error
  | satisfy view accepts => exact hs ▸ take_settled view accepts s
  | map f p ih =>
    rcases (ih hp s hs).cases with ⟨e, he⟩ | ⟨a, rest, hr, hd⟩
    · simp only [run, he]
      exact .error
    · simp only [run, hr]
      exact hd ▸ .ok
  | bind p f ihp ihf =>
    rcases (ihp hp.1 s hs).cases with ⟨e, he⟩ | ⟨a, rest, hr, hd⟩
    · simp only [run, he]
      exact .error
    · simp only [run, hr]
      exact ihf a (hp.2 a) rest hd
  | mapError f p ih =>
    rcases (ih hp s hs).cases with ⟨e, he⟩ | ⟨a, rest, hr, hd⟩
    · simp only [run, he]
      exact .error
    · simp only [run, hr]
      exact hd ▸ .ok
  | recover p f ihp ihf =>
    rcases (ihp hp.1 s hs).cases with ⟨e, he⟩ | ⟨a, rest, hr, hd⟩
    · simp only [run, he]
      split
      · exact .error
      · exact ihf e (hp.2 e) s hs
    · simp only [run, hr]
      exact hd ▸ .ok
  | many p allowEmpty ih => exact iterate_settled (fun s hs => ih hp s hs) allowEmpty s hs
  | call r => exact hp.elim
  | nested l r =>
    simp only [run, Stream.depth_eq, Stream.atDepth_eq, hs]
    split
    · exact .error
    · next hl =>
      have hlt : d < limit := Nat.lt_of_lt_of_le (Nat.lt_of_not_le hl) hp
      rcases (hrule hlt r ⟨s.items, d + 1⟩ rfl).cases with ⟨e, he⟩ | ⟨a, rest, hr, -⟩
      · rw [he]
        exact .error
      · rw [hr]
        exact ⟨_, rfl, fun _ _ h => by injection h with h; injection h with _ h; rw [← h]⟩

variable {rules : ρ → Parser (Stream τ) τ ρ ω ω} {limit : Nat}

/-- Runs of capped rules are settled as soon as the fuel reaches from the depth to the limit: each
level of calls takes one unit and goes one level deeper. -/
theorem runRule_settled (hrules : ∀ r, (rules r).CappedBy limit) (fuel : Nat) (r : ρ)
    (s : Stream τ) (hs : s.depth ≤ limit) (hfuel : limit < s.depth + fuel) :
    Settled s.depth (runRule rules fuel r s) := by
  induction fuel generalizing r s with
  | zero => omega
  | succ fuel ih =>
    refine run_settled (fun hlt r' s' hs' => ?_) (rules r) (hrules r) s rfl
    have := ih r' s' (by omega) (by omega)
    rwa [hs'] at this

/-- **Capped parsers come to a result.** If all rules are capped by `limit`, then so many calls
inside each other are enough for every capped parser on every stream. -/
theorem runFor_settled (hrules : ∀ r, (rules r).CappedBy limit) (p : Parser (Stream τ) τ ρ ω α)
    (hp : p.CappedBy limit) (s : Stream τ) : Settled s.depth (runFor rules limit p s) := by
  refine run_settled (fun hlt r' s' hs' => ?_) p hp s rfl
  have := runRule_settled hrules limit r' s' (by omega) (by omega)
  rwa [hs'] at this

end Parser

end Keypad
