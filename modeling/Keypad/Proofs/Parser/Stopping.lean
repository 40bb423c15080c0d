import Keypad.Proofs.Parser.Reading

/-! # Where a refused input stops

A failure that is not fatal says what is wrong with the front of what it leaves: there is no item, or
the item is not of the kind wanted. What was read before that front is known from the way the parser
is built. Alternatives report one of their failures, so whatever holds of all of them holds of the one
reported, and a repetition reports only the failure of its first step. -/

namespace Keypad

/-- A failure **points** at the front of what it leaves: the input is exhausted exactly if nothing is
left, and an item that is told is the front one. -/
def Failure.Points {τ : Type} (e : Failure (Stream τ) τ) : Prop :=
  (e.kind = .exhausted ↔ e.rest.items = []) ∧
    ∀ t, e.kind.item? = some t → e.rest.items.head? = some t

/-- At the end of the input a failure points at it by being exhausted. -/
theorem Failure.points_exhausted {τ : Type} (d : Nat) :
    Failure.Points ⟨(.exhausted : FailureKind τ), ⟨[], d⟩⟩ := by
  refine ⟨Iff.intro (fun _ => rfl) fun _ => rfl, ?_⟩
  intro t ht
  cases ht

/-- A failure that tells the front item points at it. -/
theorem Failure.points_item {τ : Type} {kind : FailureKind τ} {t : τ} (h : kind.item? = some t)
    (ts : List τ) (d : Nat) : Failure.Points ⟨kind, ⟨t :: ts, d⟩⟩ := by
  constructor
  · constructor
    · rintro rfl
      cases h
    · intro hnil
      cases hnil
  · intro u hu
    rw [h] at hu
    exact hu

namespace Parser

variable {τ ρ ω α β : Type} {rule : ρ → Stream τ → Option (Outcome (Stream τ) τ ω)}

/-- The parser `p` **stops** on `s` with `e`: it refuses `s`, and this is its failure. -/
def StopsWith (rule : ρ → Stream τ → Option (Outcome (Stream τ) τ ω))
    (p : Parser (Stream τ) τ ρ ω α) (s : Stream τ) (e : Failure (Stream τ) τ) : Prop :=
  run rule p s = some (.error e) ∧ e.kind.isFatal = false

section StopsWith

variable {s : Stream τ} {e : Failure (Stream τ) τ}

/-- What stops refuses. -/
theorem StopsWith.refuses {p : Parser (Stream τ) τ ρ ω α} (h : StopsWith rule p s e) :
    Refuses rule p s :=
  ⟨e, h⟩

/-- A changed output comes with the same failure. -/
theorem stopsWith_map {f : α → β} {p : Parser (Stream τ) τ ρ ω α}
    (h : StopsWith rule (.map f p) s e) : StopsWith rule p s e := by
  obtain ⟨he, hfatal⟩ := h
  rw [run] at he
  obtain ⟨out, hout, hmap⟩ := Option.map_eq_some_iff.1 he
  cases out with
  | ok result => cases hmap
  | error e' =>
    cases hmap
    exact ⟨hout, hfatal⟩

/-- Two parsers one after the other stop with the failure of the first one, or with that of the
second one behind it. -/
theorem stopsWith_bind {p : Parser (Stream τ) τ ρ ω α} {f : α → Parser (Stream τ) τ ρ ω β}
    (h : StopsWith rule (.bind p f) s e) :
    StopsWith rule p s e ∨ ∃ a mid, Reads rule p s a mid ∧ StopsWith rule (f a) mid e := by
  obtain ⟨he, hfatal⟩ := h
  rw [run] at he
  split at he
  · next a mid hread => exact .inr ⟨a, mid, hread, he, hfatal⟩
  · next e' he' =>
    cases he
    exact .inl ⟨he', hfatal⟩
  · cases he

/-- Alternatives stop where one of them does. -/
theorem stopsWith_orElse {p q : Parser (Stream τ) τ ρ ω α} (h : StopsWith rule (p.orElse q) s e) :
    Refuses rule q s ∧ (StopsWith rule p s e ∨ StopsWith rule q s e) := by
  have hq := (refuses_orElse.1 h.refuses).2
  refine ⟨hq, ?_⟩
  obtain ⟨left, hleft, hleftFatal⟩ := (refuses_orElse.1 h.refuses).1
  obtain ⟨right, hright, hrightFatal⟩ := hq
  obtain ⟨he, -⟩ := h
  rw [run_orElse, hleft, hright] at he
  simp only [hleftFatal] at he
  cases he
  -- the one that is told is the one that got further
  rcases Failure.further_eq_or left right with hfurther | hfurther
  · rw [hfurther]
    exact .inl ⟨hleft, hleftFatal⟩
  · rw [hfurther]
    exact .inr ⟨hright, hrightFatal⟩

/-- A repetition that may be empty refuses nothing. -/
theorem not_refuses_many {p : Parser (Stream τ) τ ρ ω α} : ¬ Refuses rule (.many p true) s := by
  -- a repetition is no recursion on its input, so the induction is on the length of that
  induction hlen : s.items.length using Nat.strongRecOn generalizing s with
  | ind len ih =>
    rintro ⟨e, he, hfatal⟩
    rw [run, iterate] at he
    split at he
    · cases he
    · next e' _ =>
      split at he
      · -- only a fatal failure is passed on
        next hpassed =>
        cases he
        rw [hfatal] at hpassed
        cases hpassed
      · cases he
    · next a rest _ =>
      split at he
      · next hlt =>
        obtain ⟨out, hout, hmap⟩ := Option.map_eq_some_iff.1 he
        cases out with
        | ok result => cases hmap
        | error e' =>
          cases hmap
          exact ih _ (hlen ▸ hlt) rfl ⟨e, hout, hfatal⟩
      · cases he

/-- A repetition stops where its first step does. -/
theorem stopsWith_many {p : Parser (Stream τ) τ ρ ω α} {allowEmpty : Bool}
    (h : StopsWith rule (.many p allowEmpty) s e) : StopsWith rule p s e := by
  obtain ⟨he, hfatal⟩ := h
  rw [run, iterate] at he
  split at he
  · cases he
  · next e' he' =>
    split at he
    · cases he
      exact ⟨he', hfatal⟩
    · cases he
  · next a rest _ =>
    split at he
    · obtain ⟨out, hout, hmap⟩ := Option.map_eq_some_iff.1 he
      cases out with
      | ok result => cases hmap
      | error e' =>
        -- the later steps do not refuse, and what is fatal is not stopping
        cases hmap
        exact absurd (show Refuses rule (.many p true) rest from ⟨e, hout, hfatal⟩) not_refuses_many
    · cases he

end StopsWith

/-! ## What is read before the place -/

/-- The parser `p` **stops within** `P`: its failures point at the front of what they leave, and what
is before that is as `P` says. -/
def StopsWithin (rule : ρ → Stream τ → Option (Outcome (Stream τ) τ ω))
    (p : Parser (Stream τ) τ ρ ω α) (P : List τ → Prop) : Prop :=
  ∀ s e, StopsWith rule p s e → e.Points ∧ ∃ us, s.items = us ++ e.rest.items ∧ P us

section StopsWithin

variable {P Q : List τ → Prop} {p q : Parser (Stream τ) τ ρ ω α}

/-- What is read before a stop may be described more widely. -/
theorem StopsWithin.mono (h : StopsWithin rule p P) (hPQ : ∀ us, P us → Q us) :
    StopsWithin rule p Q := by
  intro s e he
  obtain ⟨hpoints, us, hitems, hus⟩ := h s e he
  exact ⟨hpoints, us, hitems, hPQ us hus⟩

/-- A single item is refused where it stands. -/
theorem stopsWithin_satisfy {view : τ → Option α} {accepts : α → Bool} (hP : P []) :
    StopsWithin rule (.satisfy view accepts) P := by
  rintro ⟨ts, d⟩ e ⟨he, -⟩
  rw [run, Option.some.injEq] at he
  unfold take at he
  -- nothing has been read before the item that is refused, or the end
  cases ts with
  | nil =>
    cases he
    exact ⟨Failure.points_exhausted d, [], rfl, hP⟩
  | cons t ts =>
    rw [Stream.next?_cons] at he
    dsimp only at he
    split at he
    · cases he
      exact ⟨Failure.points_item rfl ts d, [], rfl, hP⟩
    · split at he
      · cases he
      · cases he
        exact ⟨Failure.points_item rfl ts d, [], rfl, hP⟩

/-- Changing the output changes no stop. -/
theorem StopsWithin.map (h : StopsWithin rule p P) (f : α → β) : StopsWithin rule (.map f p) P :=
  fun s e he => h s e (stopsWith_map he)

/-- What was read by the first parser is before the place where the second one stops. -/
theorem StopsWithin.bind {f : α → Parser (Stream τ) τ ρ ω β} (hp : StopsWithin rule p P)
    (hf : ∀ s a rest, Reads rule p s a rest →
      ∃ ws, s.items = ws ++ rest.items ∧ StopsWithin rule (f a) fun us => P (ws ++ us)) :
    StopsWithin rule (.bind p f) P := by
  intro s e he
  rcases stopsWith_bind he with he | ⟨a, mid, hread, he⟩
  · exact hp s e he
  · obtain ⟨ws, hws, hstops⟩ := hf s a mid hread
    obtain ⟨hpoints, us, hus, hP⟩ := hstops mid e he
    exact ⟨hpoints, ws ++ us, by rw [hws, hus, List.append_assoc], hP⟩

/-- Both alternatives start on the same keys, and the failure of one of them is reported. -/
theorem StopsWithin.orElse (hp : StopsWithin rule p P) (hq : StopsWithin rule q P) :
    StopsWithin rule (p.orElse q) P := by
  intro s e he
  rcases (stopsWith_orElse he).2 with he | he
  · exact hp s e he
  · exact hq s e he

/-- What may be missing is never refused. -/
theorem stopsWithin_optional (p : Parser (Stream τ) τ ρ ω α) (a : α) :
    StopsWithin rule (p.orElse (.pure a)) P :=
  fun _ _ he => absurd (stopsWith_orElse he).1 not_refuses_pure

/-- A repetition stops within what its steps stop within: only the first of them can stop it. -/
theorem StopsWithin.many (h : StopsWithin rule p P) (allowEmpty : Bool) :
    StopsWithin rule (.many p allowEmpty) P :=
  fun s e he => h s e (stopsWith_many he)

end StopsWithin

end Parser

end Keypad
