import Keypad.Proofs.Parser.Reading
import Mathlib.Logic.Relation

/-! # The calls of a run

While a parser runs, it **enters** the rules that it calls: each of its parts is run on what the
parts before it have left, an alternative only where the ones before it failed, and a repeated part
as often as it makes progress. This module says which calls a run enters and on which inputs, in
terms of the parts of the parser, and that what a run leaves is the end of its input. -/

namespace Keypad.Parser

section Enters

variable {I τ ρ ω α : Type} [Input I τ]

/-- A step **advances** from one input to the next one if it succeeds and leaves less. -/
def Advances (step : I → Option (Outcome I τ α)) (s s' : I) : Prop :=
  ∃ a, step s = some (.ok (a, s')) ∧ Input.remaining s' < Input.remaining s

/-- While a parser runs on `s`, it **enters** the call `c` on the input `s'`. -/
def Enters (rule : ρ → I → Option (Outcome I τ ω)) {α : Type} :
    Parser I τ ρ ω α → I → Parser I τ ρ ω ω → I → Prop
  | .pure _, _, _, _ => False
  | .fail, _, _, _ => False
  | .satisfy _ _, _, _, _ => False
  | .map _ p, s, c, s' => p.Enters rule s c s'
  | .bind p f, s, c, s' =>
    p.Enters rule s c s' ∨
      ∃ a mid, run rule p s = some (.ok (a, mid)) ∧ (f a).Enters rule mid c s'
  | .mapError _ p, s, c, s' => p.Enters rule s c s'
  | .recover p f, s, c, s' =>
    p.Enters rule s c s' ∨
      ∃ e, run rule p s = some (.error e) ∧ e.kind.isFatal = false ∧ (f e).Enters rule s c s'
  | .many p _, s, c, s' =>
    ∃ mid, Relation.ReflTransGen (Advances (run rule p)) s mid ∧ p.Enters rule mid c s'
  | .call r, s, c, s' => c = .call r ∧ s' = s
  | .nested limit r, s, c, s' => c = .nested limit r ∧ s' = s

end Enters

section Stream

variable {τ ρ ω α : Type} {rule : ρ → Stream τ → Option (Outcome (Stream τ) τ ω)}

/-- An alternation enters what its first alternative enters, and where that is refused what the
second one enters. -/
theorem enters_orElse {p q : Parser (Stream τ) τ ρ ω α} {c : Parser (Stream τ) τ ρ ω ω}
    {s s' : Stream τ} :
    (p.orElse q).Enters rule s c s' ↔
      p.Enters rule s c s' ∨ Refuses rule p s ∧ q.Enters rule s c s' := by
  constructor
  · rintro (h | ⟨e, he, hfatal, h⟩)
    · exact .inl h
    · exact .inr ⟨⟨e, he, hfatal⟩, h⟩
  · rintro (h | ⟨⟨e, he, hfatal⟩, h⟩)
    · exact .inl h
    · exact .inr ⟨e, he, hfatal, h⟩

/-! ## What a run leaves -/

/-- A parser **leaves suffixes** if what is left after it has read is the end of its input. -/
def LeavesSuffix (rule : ρ → Stream τ → Option (Outcome (Stream τ) τ ω))
    (p : Parser (Stream τ) τ ρ ω α) : Prop :=
  ∀ s a rest, Reads rule p s a rest → rest.items <:+ s.items

/-- A repetition leaves an end of the stream if its steps do. -/
theorem LeavesSuffix.many {p : Parser (Stream τ) τ ρ ω α} (hp : LeavesSuffix rule p)
    (allowEmpty : Bool) : LeavesSuffix rule (.many p allowEmpty) := by
  intro s as rest h
  -- every step of a repetition is on a shorter input
  induction hlen : s.items.length using Nat.strongRecOn generalizing s as allowEmpty with
  | ind len ih =>
    rcases reads_many h with ⟨-, -, rfl, -⟩ | ⟨a, mid, as, hread, -, hrest⟩
    · exact List.suffix_rfl
    · have hmid := hp s a mid hread
      rcases hrest with ⟨hlt, hmany⟩ | ⟨-, -, rfl⟩
      · exact (ih _ (hlen ▸ hlt) true mid as hmany rfl).trans hmid
      · exact hmid

/-- If the rules leave suffixes, so does every parser that calls them. -/
theorem leavesSuffix (hrule : ∀ r, LeavesSuffix rule (.call r)) (p : Parser (Stream τ) τ ρ ω α) :
    LeavesSuffix rule p := by
  -- on the parser; only single items are taken, all else is made of that
  induction p with
  | pure a =>
    intro s b rest h
    exact (reads_pure.1 h).2 ▸ List.suffix_rfl
  | fail =>
    intro s a rest h
    cases h
  | satisfy view accepts =>
    intro s a rest h
    obtain ⟨t, hs, -, -, -⟩ := reads_satisfy.1 h
    exact hs ▸ List.suffix_cons t rest.items
  | map f p ih =>
    intro s b rest h
    obtain ⟨a, ha, -⟩ := reads_map.1 h
    exact ih s a rest ha
  | bind p f ihp ihf =>
    intro s b rest h
    obtain ⟨a, mid, ha, hb⟩ := reads_bind.1 h
    exact (ihf a mid b rest hb).trans (ihp s a mid ha)
  | mapError f p ih =>
    intro s a rest h
    obtain ⟨out, hout, heq⟩ := Option.map_eq_some_iff.1 h
    cases out with
    | error e => cases heq
    | ok result =>
      obtain rfl := Except.ok.inj heq
      exact ih s a rest hout
  | recover p f ihp ihf =>
    intro s a rest h
    rw [Reads, run] at h
    split at h
    · next e he =>
      by_cases hfatal : e.kind.isFatal = true
      · rw [if_pos hfatal] at h
        cases h
      · rw [if_neg hfatal] at h
        exact ihf e s a rest h
    · exact ihp s a rest h
  | many p allowEmpty ih => exact ih.many allowEmpty
  | call r => exact hrule r
  | nested limit r =>
    intro s a rest h
    rw [Reads, run] at h
    split at h
    · cases h
    · obtain ⟨out, hout, heq⟩ := Option.map_eq_some_iff.1 h
      cases out with
      | error e => cases heq
      | ok result =>
        obtain ⟨b, rest'⟩ := result
        cases heq
        exact hrule r ⟨s.items, s.depth + 1⟩ a rest' hout

/-- What the steps of a repetition leave is the end of the input. -/
theorem suffix_of_advances {p : Parser (Stream τ) τ ρ ω α} (hp : LeavesSuffix rule p)
    {s mid : Stream τ} (h : Relation.ReflTransGen (Advances (run rule p)) s mid) :
    mid.items <:+ s.items := by
  induction h with
  | refl => exact List.suffix_rfl
  | tail _ hstep ih =>
    obtain ⟨a, hread, -⟩ := hstep
    exact (hp _ a _ hread).trans ih

end Stream

end Keypad.Parser
