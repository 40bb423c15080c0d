import Keypad.Proofs.Grammar.Soundness
import Keypad.Proofs.Parser.Entering

/-! # Reentering the grammar

Why the grammar terminates without a limit on nesting, and what the limit changes. Whenever a tier
enters another one, a **rank** made of the keys that remain and of the tier goes down, so a tier is
entered again, or a looser one is, only on fewer keys. The limited grammar fails because of its limit
or does what the free grammar does. -/

namespace Keypad.Grammar

variable {V α β : Type}

/-- The **rank** of a tier on some keys. A tighter tier on the same keys is of a lower rank, and so
is every tier on fewer keys. -/
def rank (t : Tier) (ts : List (Key V)) : Nat := 3 * ts.length + (2 - t.level)

/-- Without a limit, too, what a parser leaves is the end of its input. -/
theorem leavesSuffix_free (p : KeyParser V α) : Parser.LeavesSuffix freeCalls p := by
  refine Parser.leavesSuffix (fun t s e rest h => ?_) p
  obtain ⟨δ, hitems, -⟩ := free_sound (Option.some.inj (Parser.reads_call.1 h))
  exact ⟨_, hitems.symm⟩

/-! ## Parsers that descend -/

/-- A parser **descends** with `n` to spare: what it enters is at the end of its input and of a rank
below three times the keys of the input and `n`. -/
def Descends (n : Nat) (p : KeyParser V α) : Prop :=
  ∀ s t s', p.Enters freeCalls s (.call t) s' →
    s'.items <:+ s.items ∧ rank t s'.items < 3 * s.items.length + n

/-- What reads nothing enters nothing. -/
theorem descends_pure (n : Nat) (a : α) : Descends (V := V) n (.pure a) :=
  fun _ _ _ h => h.elim

/-- Reading a key enters nothing. -/
theorem descends_satisfy (n : Nat) (view : Key V → Option α) (accepts : α → Bool) :
    Descends n (.satisfy view accepts) :=
  fun _ _ _ h => h.elim

/-- A call on the whole input descends if its tier is tight enough. -/
theorem descends_call {n : Nat} {t : Tier} (h : 2 - t.level < n) :
    Descends (V := V) n (.call t) := by
  rintro s t' s' ⟨ht, rfl⟩
  obtain rfl := Parser.call.inj ht
  exact ⟨List.suffix_rfl, by rw [rank]; omega⟩

/-- Changing the output enters nothing further. -/
theorem Descends.map {n : Nat} {p : KeyParser V α} (h : Descends n p) (f : α → β) :
    Descends n (.map f p) := h

/-- What is entered later has no more keys in front of it. -/
theorem Descends.bind {n : Nat} {p : KeyParser V α} {f : α → KeyParser V β} (hp : Descends n p)
    (hf : ∀ a, Descends n (f a)) : Descends n (.bind p f) := by
  rintro s t s' (h | ⟨a, mid, hread, h⟩)
  · exact hp s t s' h
  · have hmid := leavesSuffix_free p s a mid hread
    obtain ⟨hsuf, hlt⟩ := hf a mid t s' h
    have hlen := hmid.length_le
    exact ⟨hsuf.trans hmid, by omega⟩

/-- A key that has been read is three to spare. -/
theorem Descends.bind_satisfy {n : Nat} {view : Key V → Option α} {accepts : α → Bool}
    {f : α → KeyParser V β} (hf : ∀ a, Descends (n + 3) (f a)) :
    Descends n (.bind (.satisfy view accepts) f) := by
  rintro s t s' (h | ⟨a, mid, hread, h⟩)
  · exact h.elim
  · obtain ⟨k, hitems, -, -, -⟩ := Parser.reads_satisfy.1 hread
    obtain ⟨hsuf, hlt⟩ := hf a mid t s' h
    refine ⟨hsuf.trans (hitems ▸ List.suffix_cons k mid.items), ?_⟩
    rw [hitems, List.length_cons]
    omega

/-- Both alternatives enter on the same input. -/
theorem Descends.orElse {n : Nat} {p q : KeyParser V α} (hp : Descends n p) (hq : Descends n q) :
    Descends n (p.orElse q) := by
  intro s t s' h
  rcases Parser.enters_orElse.1 h with h | ⟨-, h⟩
  · exact hp s t s' h
  · exact hq s t s' h

/-- Each repetition enters on an end of the input. -/
theorem Descends.many {n : Nat} {p : KeyParser V α} (hp : Descends n p) (allowEmpty : Bool) :
    Descends n (.many p allowEmpty) := by
  rintro s t s' ⟨mid, hsteps, h⟩
  have hmid := Parser.suffix_of_advances (leavesSuffix_free p) hsteps
  obtain ⟨hsuf, hlt⟩ := hp mid t s' h
  have hlen := hmid.length_le
  exact ⟨hsuf.trans hmid, by omega⟩

/-! ## The rules descend -/

/-- **A factor descends with nothing to spare**: it enters only behind a closing bracket. -/
theorem descends_factor : Descends (V := V) 0 (factor (.call .low)) := by
  refine .orElse (.orElse ?_ ?_) (.map (descends_satisfy _ _ _) _)
  · -- the closing bracket pays for the expression before it
    refine .bind_satisfy fun _ => .bind (descends_call (by decide)) fun arg => ?_
    refine .bind (descends_satisfy _ _ _) fun _ => ?_
    exact .orElse (.map (descends_satisfy _ _ _) _) (descends_pure _ arg)
  · exact .map (.many (descends_satisfy _ _ _) false) _

/-- An operand enters a tighter tier on the same keys, or what is in brackets. -/
theorem descends_operand (t : Tier) : Descends (V := V) (2 - t.level) (operand .call t) := by
  cases t with
  | low => exact descends_call (by decide)
  | middle => exact descends_call (by decide)
  | high => exact .map (.many descends_factor false) _

/-- **Every rule descends**: what a tier enters is of a lower rank. -/
theorem descends_uncapped (t : Tier) : Descends (V := V) (2 - t.level) (uncapped t) := by
  refine .orElse (.bind (descends_operand t) fun rhs => ?_) ?_
  · refine .orElse (.orElse ?_ (.map (descends_satisfy _ _ _) _)) (descends_pure _ rhs)
    exact .bind_satisfy fun op => .map (descends_call (by omega)) _
  · exact .bind_satisfy fun op => .map (descends_call (by omega)) _

/-! ## Entering tiers -/

/-- A tier on its input **enters** another one while it is read. -/
def Enters (x y : Tier × Stream (Key V)) : Prop :=
  (uncapped x.1).Enters freeCalls x.2 (.call y.1) y.2

/-- Through any number of tiers the rank goes down. -/
theorem rank_lt_of_enters {x y : Tier × Stream (Key V)} (h : Relation.TransGen Enters x y) :
    y.2.items <:+ x.2.items ∧ rank y.1 y.2.items < rank x.1 x.2.items := by
  induction h with
  | single h => exact descends_uncapped _ _ _ _ h
  | tail _ h ih =>
    obtain ⟨hsuf, hlt⟩ := descends_uncapped _ _ _ _ h
    exact ⟨hsuf.trans ih.1, Nat.lt_trans hlt ih.2⟩

/-- **The limit on nesting only adds failures.** Without it a tier comes to a result on any keys:
calls of some depth are enough, and more make no difference, because a tier that is entered again
through any number of others, or a looser one, has fewer of the keys left. With it, whatever the depth
it begins at, the tier fails because of the limit or does the same: both succeed with the same tree
and leave the same keys, at the depth it began at, or both fail for the same reason at the same keys. -/
theorem expression_refines_uncapped (t : Tier) (ts : List (Key V)) (d' : Nat) :
    ∃ o, (∃ fuel, ∀ n, fuel ≤ n → Parser.runRule uncapped n t ⟨ts, d'⟩ = some o) ∧
      (∀ t' s', Relation.TransGen Enters (t, ⟨ts, d'⟩) (t', s') →
        s'.items <:+ ts ∧ (t'.level ≤ t.level → s'.items.length < ts.length)) ∧
      ∀ d,
        (∃ rest, expression t ⟨ts, d⟩ = .error ⟨.tooDeep, rest⟩) ∨
        (∃ e us, expression t ⟨ts, d⟩ = .ok (e, ⟨us, d⟩) ∧ o = .ok (e, ⟨us, d'⟩)) ∨
        ∃ k us n n', k ≠ .tooDeep ∧ expression t ⟨ts, d⟩ = .error ⟨k, ⟨us, n⟩⟩ ∧
          o = .error ⟨k, ⟨us, n'⟩⟩ := by
  refine ⟨free t ⟨ts, d'⟩, ⟨weight ts + 3, fun n hn => ?_⟩, fun t' s' h => ?_, fun d => ?_⟩
  · exact Parser.runRule_extends uncapped hn t _ _ (runRule_weight t ⟨ts, d'⟩)
  · -- a lower rank at a tier that is no tighter means fewer keys
    obtain ⟨hsuf, hlt⟩ := rank_lt_of_enters h
    refine ⟨hsuf, fun hlevel => ?_⟩
    simp only [rank] at hlt
    omega
  · -- both grammars run alike up to the limit, whatever the depths they begin at
    have hm := expression_matches t ts d d'
    cases hexpr : expression t ⟨ts, d⟩ with
    | ok result =>
      obtain ⟨e, us, n⟩ := result
      obtain rfl : n = d := expression_depth hexpr
      rw [hexpr] at hm
      exact .inr (.inl ⟨e, us, rfl, Option.some.inj hm.eq_ok⟩)
    | error err =>
      obtain ⟨k, us, n⟩ := err
      rw [hexpr] at hm
      by_cases hfatal : k.isFatal = true
      · obtain rfl := (FailureKind.isFatal_iff k).1 hfatal
        exact .inl ⟨_, rfl⟩
      · obtain ⟨n', hn'⟩ := hm.eq_error (Bool.eq_false_iff.2 hfatal)
        refine .inr (.inr ⟨k, us, n, n', ?_, rfl, Option.some.inj hn'⟩)
        exact fun hk => hfatal ((FailureKind.isFatal_iff k).2 hk)

end Keypad.Grammar
