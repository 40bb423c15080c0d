import Keypad.Parser.Cursor
import Keypad.Proofs.Parser.During

/-! # What a run leaves of its input

Whatever a parser is built from, what it leaves is an end of its input: on success at the depth at
which it began, on failure at no smaller one. This holds for all kinds of input that know which
inputs are **ends** of which others. On a cursor it means that no place that a run comes to is
behind the last item. -/

namespace Keypad

/-- An input is **lawful** if there is a notion of its ends: reading an item leaves an end at the
same depth, and changing the depth leaves one at that depth. -/
class LawfulInput (I : Type) {τ : outParam Type} [Input I τ] where
  /-- The first input is an **end** of the second one, at whatever depths. -/
  IsEnd : I → I → Prop
  isEnd_refl (s : I) : IsEnd s s
  isEnd_trans {s₁ s₂ s₃ : I} : IsEnd s₁ s₂ → IsEnd s₂ s₃ → IsEnd s₁ s₃
  isEnd_next {s rest : I} {t : τ} : Input.next? s = some (t, rest) → IsEnd rest s
  depth_next {s rest : I} {t : τ} : Input.next? s = some (t, rest) →
    Input.depth rest = Input.depth s
  atDepth_isEnd (s : I) (d : Nat) : IsEnd (Input.atDepth s d) s
  depth_atDepth (s : I) (d : Nat) : Input.depth (Input.atDepth s d) = d

open LawfulInput

/-- An end of a stream is a suffix of its items. -/
instance {τ : Type} : LawfulInput (Stream τ) where
  IsEnd s' s := s'.items <:+ s.items
  isEnd_refl _ := List.suffix_rfl
  isEnd_trans h h' := h.trans h'
  isEnd_next {s _ _} h := by
    obtain ⟨items, d⟩ := s
    cases items with
    | nil => cases h
    | cons t ts =>
      cases h
      exact List.suffix_cons _ _
  depth_next {s _ _} h := by
    obtain ⟨items, d⟩ := s
    cases items with
    | nil => cases h
    | cons t ts =>
      cases h
      rfl
  atDepth_isEnd _ _ := List.suffix_rfl
  depth_atDepth _ _ := rfl

namespace Cursor

variable {τ : Type}

/-- A cursor is an **end** of another one if it shares its items and its position is between that
of the other one and the end of the items. -/
structure EndOf (rest c : Cursor τ) : Prop where
  items_eq : rest.items = c.items
  position_le : c.position ≤ rest.position
  le_length : rest.position ≤ c.items.length

/-- An end of a cursor is in range. -/
theorem EndOf.inRange {rest c : Cursor τ} (h : rest.EndOf c) : rest.InRange := by
  rw [InRange, h.items_eq]
  exact h.le_length

/-- An item that was read was in range, and so the cursor behind it is in range again. -/
theorem endOf_next {c rest : Cursor τ} {t : τ} (h : Input.next? c = some (t, rest)) :
    rest.EndOf c := by
  obtain ⟨ht, rfl⟩ := next?_eq_some_iff.1 h
  obtain ⟨hlt, -⟩ := List.getElem?_eq_some_iff.1 ht
  exact ⟨rfl, Nat.le_succ _, hlt⟩

instance : LawfulInput (Cursor τ) where
  IsEnd rest c := c.InRange → rest.EndOf c
  isEnd_refl _ h := ⟨rfl, Nat.le_refl _, h⟩
  isEnd_trans h h' hc := by
    have h₂ := h' hc
    have h₁ := h h₂.inRange
    exact ⟨h₁.items_eq.trans h₂.items_eq, Nat.le_trans h₂.position_le h₁.position_le,
      h₂.items_eq ▸ h₁.le_length⟩
  isEnd_next h _ := endOf_next h
  depth_next h := by
    obtain ⟨-, rfl⟩ := next?_eq_some_iff.1 h
    rfl
  atDepth_isEnd _ _ h := ⟨rfl, Nat.le_refl _, h⟩
  depth_atDepth _ _ := rfl

end Cursor

namespace Parser

variable {I τ ρ ω α β : Type} [Input I τ] [LawfulInput I]

/-! ## Outcomes that stay in the input -/

/-- An outcome **stays** in an input if it leaves an end of it: a success at the depth of the input,
a failure at no smaller one. -/
def Stays (s : I) : Outcome I τ α → Prop
  | .ok (_, rest) => IsEnd rest s ∧ Input.depth rest = Input.depth s
  | .error e => IsEnd e.rest s ∧ Input.depth s ≤ Input.depth e.rest

/-- A success that leaves the whole input stays in it. -/
theorem stays_ok {s : I} (a : α) : Stays s (.ok (a, s) : Outcome I τ α) :=
  ⟨isEnd_refl s, rfl⟩

/-- So does a failure that leaves the whole input. -/
theorem stays_error {s : I} (k : FailureKind τ) : Stays s (.error ⟨k, s⟩ : Outcome I τ α) :=
  ⟨isEnd_refl s, Nat.le_refl _⟩

/-- An outcome that stays in what was left before stays in the input. -/
theorem Stays.after {s mid : I} {o : Outcome I τ α} (h : Stays mid o) (hend : IsEnd mid s)
    (hdepth : Input.depth mid = Input.depth s) : Stays s o := by
  cases o with
  | ok result => exact ⟨isEnd_trans h.1 hend, h.2.trans hdepth⟩
  | error e => exact ⟨isEnd_trans h.1 hend, hdepth ▸ h.2⟩

/-- Only the output is changed. -/
theorem Stays.map {s : I} {o : Outcome I τ α} (h : Stays s o) (f : α → β) :
    Stays s (o.map fun (a, rest) => (f a, rest)) := by
  cases o <;> exact h

/-- The failure may be changed into one that stays in the input. -/
theorem Stays.mapError {s : I} {o : Outcome I τ α} {f : Failure I τ → Failure I τ}
    (h : Stays s o)
    (hf : ∀ e, Stays s (.error e : Outcome I τ α) → Stays s (.error (f e) : Outcome I τ α)) :
    Stays s (o.mapError f) := by
  cases o with
  | ok result => exact h
  | error e => exact hf e h

/-- Whichever of two failures got further, it stays in the input if both do. -/
theorem stays_further {s : I} {left right : Failure I τ}
    (hleft : Stays s (.error left : Outcome I τ α))
    (hright : Stays s (.error right : Outcome I τ β)) :
    Stays s (.error (left.further right) : Outcome I τ β) := by
  rcases Failure.further_eq_or left right with h | h <;> rw [h]
  · exact hleft
  · exact hright

/-- Reading an item stays in the input. -/
theorem take_stays (view : τ → Option α) (accepts : α → Bool) (s : I) :
    Stays s (take view accepts s) := by
  unfold take
  split
  · exact stays_error _
  · next t rest hnext =>
    split
    · exact stays_error _
    · split
      · exact ⟨isEnd_next hnext, depth_next hnext⟩
      · exact stays_error _

/-- A repetition stays in the input if its steps do: ends of ends are ends. -/
theorem iterate_stays {step : I → Option (Outcome I τ α)}
    (hstep : ∀ s o, step s = some o → Stays s o) (allowEmpty : Bool) (s : I)
    (o : Outcome I τ (List α)) (ho : iterate step allowEmpty s = some o) : Stays s o := by
  rw [iterate] at ho
  cases hs : step s with
  | none =>
    rw [hs] at ho
    cases ho
  | some out =>
    rw [hs] at ho
    have hout := hstep s out hs
    cases out with
    | error e =>
      dsimp only at ho
      split at ho <;> obtain rfl := Option.some.inj ho
      · exact hout
      · exact stays_ok []
    | ok result =>
      obtain ⟨a, mid⟩ := result
      dsimp only at ho
      split at ho
      · -- the later steps stay in what the first one left
        obtain ⟨out', hout', rfl⟩ := Option.map_eq_some_iff.1 ho
        exact ((iterate_stays hstep true mid out' hout').after hout.1 hout.2).map _
      · obtain rfl := Option.some.inj ho
        exact hout
termination_by Input.remaining s

/-- Requiring that the whole input was read leaves what the run left. -/
theorem Stays.complete {s : I} {o : Outcome I τ α} (h : Stays s o) {e : Failure I τ}
    (he : complete o = .error e) : IsEnd e.rest s ∧ Input.depth s ≤ Input.depth e.rest := by
  cases o with
  | error e' =>
    cases he
    exact h
  | ok result =>
    obtain ⟨a, rest⟩ := result
    rw [Parser.complete] at he
    split at he
    · cases he
    · cases he
      exact ⟨h.1, Nat.le_of_eq h.2.symm⟩

/-! ## Runs that stay in the input -/

/-- A change of failures **keeps the rest** if it changes only their kinds. -/
def KeepsRest (f : Failure I τ → Failure I τ) : Prop := ∀ e, (f e).rest = e.rest

/-- A failure that is changed only in its kind stays where it was. -/
theorem KeepsRest.stays {f : Failure I τ → Failure I τ} (hf : KeepsRest f) {s : I}
    {e : Failure I τ} (h : Stays s (.error e : Outcome I τ α)) :
    Stays s (.error (f e) : Outcome I τ α) := by
  obtain ⟨hend, hdepth⟩ := h
  rw [← hf e] at hend hdepth
  exact ⟨hend, hdepth⟩

/-- If the rules stay in their inputs, so does every parser that is built from them. -/
theorem run_stays {rule : ρ → I → Option (Outcome I τ ω)}
    (hrule : ∀ r s o, rule r s = some o → Stays s o) {p : Parser I τ ρ ω α}
    (hp : Built KeepsRest p) (s : I) (o : Outcome I τ α) (ho : run rule p s = some o) :
    Stays s o := by
  -- on how the parser is built; its parts are run on other inputs
  induction hp generalizing s with
  | pure a =>
    obtain rfl := Option.some.inj ho
    exact stays_ok a
  | fail =>
    obtain rfl := Option.some.inj ho
    exact stays_error _
  | satisfy view accepts =>
    obtain rfl := Option.some.inj ho
    exact take_stays view accepts s
  | map f _ ih =>
    obtain ⟨out, hout, rfl⟩ := Option.map_eq_some_iff.1 ho
    exact (ih s out hout).map f
  | bind _ _ ihp ihf =>
    rw [run] at ho
    split at ho
    · next a mid hread =>
      have hmid := ihp s _ hread
      -- the second parser runs on what the first one left
      exact (ihf a mid o ho).after hmid.1 hmid.2
    · next e he =>
      obtain rfl := Option.some.inj ho
      exact ihp s _ he
    · cases ho
  | mapError hf _ ih =>
    obtain ⟨out, hout, rfl⟩ := Option.map_eq_some_iff.1 ho
    exact (ih s out hout).mapError fun e => hf.stays
  | recover _ _ ihp ihf =>
    rw [run] at ho
    split at ho
    · next e he =>
      split at ho
      · obtain rfl := Option.some.inj ho
        exact ihp s _ he
      · exact ihf e s o ho
    · exact ihp s o ho
  | @alternation α p q _ _ ihp ihq =>
    have hrun := run_orElse rule p q s
    rw [orElse, ho] at hrun
    split at hrun
    · next e he =>
      have hleft := ihp s _ he
      split at hrun
      · obtain rfl := Option.some.inj hrun
        exact hleft
      · obtain ⟨out, hout, rfl⟩ := Option.map_eq_some_iff.1 hrun.symm
        exact (ihq s out hout).mapError fun e' hright => stays_further hleft hright
    · exact ihp s o hrun.symm
  | many allowEmpty _ ih => exact iterate_stays ih allowEmpty s o ho
  | call r => exact hrule r s o ho
  | nested limit r =>
    rw [run] at ho
    split at ho
    · obtain rfl := Option.some.inj ho
      exact stays_error _
    · -- the rule runs one level deeper, and a success gives the level back
      obtain ⟨out, hout, rfl⟩ := Option.map_eq_some_iff.1 ho
      have hinner := hrule r _ out hout
      have hs := atDepth_isEnd s (Input.depth s + 1)
      cases out with
      | error e =>
        refine ⟨isEnd_trans hinner.1 hs, ?_⟩
        have hle := hinner.2
        rw [depth_atDepth] at hle
        exact Nat.le_of_succ_le hle
      | ok result =>
        exact ⟨isEnd_trans (atDepth_isEnd _ _) (isEnd_trans hinner.1 hs), depth_atDepth _ _⟩

variable {rules : ρ → Parser I τ ρ ω ω}

/-- **Rules stay in the input**, by induction on how deep they call each other. -/
theorem runRule_stays (hrules : ∀ r, Built KeepsRest (rules r)) (fuel : Nat) (r : ρ) (s : I)
    (o : Outcome I τ ω) (ho : runRule rules fuel r s = some o) : Stays s o := by
  induction fuel generalizing r s o with
  | zero => cases ho
  | succ fuel ih => exact run_stays ih (hrules r) s o ho

/-- **What a parser leaves is an end of its input**, on success at the same depth. -/
theorem Gives.stays (hrules : ∀ r, Built KeepsRest (rules r)) {p : Parser I τ ρ ω α}
    (hp : Built KeepsRest p) {s : I} {o : Outcome I τ α} (h : Gives rules p s o) : Stays s o := by
  obtain ⟨fuel, ho⟩ := h
  exact run_stays (runRule_stays hrules fuel) hp s o ho

end Parser

end Keypad
