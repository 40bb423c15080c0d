import Keypad.Proofs.Grammar.Longest
import Keypad.Proofs.Grammar.Places
import Keypad.Proofs.Parser.Stopping

/-! # Where keys stop being an expression

A parse that fails points at the mistake. The keys behind the place where it stops, which have been
read by then, are the end of some expression, so the mistake is not among them; and unless no key is
left, the front key of what is left is the one that was told and the last one that is quoted. -/

namespace Keypad

/-- The keys that are quoted when the first `k` keys are left: the last ones of these, or the first
keys of all when none is left. -/
def keysShown {V : Type} (keys : List (Key V)) (k : Nat) : List (Key V) :=
  if k = 0 then keys.take 3 else (keys.take k).drop (k - 3)

/-- The keys quoted near the place of a failure are those shown for the keys that are left. -/
theorem nearKeys_reverse_take {V : Type} {keys : List (Key V)} {k : Nat} (hk : k ≤ keys.length) :
    nearKeys keys (keys.take k).reverse = keysShown keys k := by
  rw [nearKeys, keysShown, List.isEmpty_reverse]
  by_cases h : k = 0
  · subst h
    rfl
  · have hne : (keys.take k).isEmpty = false := by
      rw [List.isEmpty_eq_false_iff, Ne, List.take_eq_nil_iff, not_or]
      refine ⟨h, ?_⟩
      rintro rfl
      exact h (Nat.le_zero.1 hk)
    rw [if_neg h, if_neg (by rw [hne]; decide), List.take_reverse, List.reverse_reverse,
      List.length_take_of_le hk, quotedKeys]

/-- The last key that is shown is the last one left. -/
theorem getLast?_keysShown {V : Type} {keys : List (Key V)} {k : Nat} (hk : k ≤ keys.length)
    (hpos : k ≠ 0) : (keysShown keys k).getLast? = (keys.take k).getLast? := by
  rw [keysShown, if_neg hpos, List.getLast?_drop, if_neg]
  rw [List.length_take_of_le hk]
  omega

namespace Grammar

open Keypad.Parser

variable {V : Type}

/-! ## Beginnings of phrases, read backwards -/

/-- Some keys, the last one first, **begin** a phrase of a tier. -/
def BeginsPhrase (t : Tier) (us : List (Key V)) : Prop := ∃ δ : Phrase V t, us <+: δ.keys.reverse

/-- Some keys, the last one first, begin an operand of a tier. -/
def BeginsOperand (t : Tier) (us : List (Key V)) : Prop := ∃ ω : Operand V t, us <+: ω.keys.reverse

/-- Some keys, the last one first, begin a factor. -/
def BeginsFactor (us : List (Key V)) : Prop := ∃ b, ∃ f : Factor V b, us <+: f.keys.reverse

/-- No keys at all begin any factor. -/
theorem beginsFactor_nil : BeginsFactor ([] : List (Key V)) :=
  ⟨false, .constant .pi, List.nil_prefix⟩

/-- The last factor of an operand is where it begins, read from the end. -/
theorem BeginsFactor.beginsOperand {us : List (Key V)} (h : BeginsFactor us) (t : Tier) :
    BeginsOperand t us := by
  obtain ⟨b, f, hf⟩ := h
  exact ⟨f.operand t, by rwa [Factor.keys_operand]⟩

/-- The last operand of a phrase is where it begins, read from the end. -/
theorem BeginsOperand.beginsPhrase {t : Tier} {us : List (Key V)} (h : BeginsOperand t us) :
    BeginsPhrase t us := by
  obtain ⟨ω, hω⟩ := h
  exact ⟨.operand ω, hω⟩

/-- No keys at all begin any phrase. -/
theorem beginsPhrase_nil (t : Tier) : BeginsPhrase t ([] : List (Key V)) :=
  (beginsFactor_nil.beginsOperand t).beginsPhrase

/-- What ends with a closing bracket and goes on with the beginning of a phrase begins a factor. -/
theorem BeginsPhrase.closing {us : List (Key V)} (h : BeginsPhrase .low us) :
    BeginsFactor (.closing :: us) := by
  obtain ⟨δ, hδ⟩ := h
  refine ⟨false, .bracketed δ, ?_⟩
  have hkeys : (Factor.bracketed δ).keys.reverse = .closing :: (δ.keys.reverse ++ [.opening]) := by
    simp [Factor.keys]
  rw [hkeys]
  exact List.cons_prefix_cons.2 ⟨rfl, hδ.trans (List.prefix_append _ _)⟩

/-- A trailing operator in front leads on to its operand. -/
theorem BeginsPhrase.trailing {t : Tier} {us : List (Key V)} (h : BeginsPhrase t us)
    {op : PostfixOp} (hop : op.tier = t) : BeginsPhrase t (.operator op.operator :: us) := by
  obtain ⟨δ, hδ⟩ := h
  refine ⟨.trailing δ op hop, ?_⟩
  rw [Phrase.keys, List.reverse_append]
  exact List.cons_prefix_cons.2 ⟨rfl, hδ⟩

/-! ## Where the rules stop -/

section Rules

variable {calls : Calls V}

/-- What is in brackets stops within a factor. -/
theorem stopsWithin_bracketed {inner : KeyParser V (Expr V)}
    (hreads : ReadsPhrases calls .low inner) (hstops : StopsWithin calls inner (BeginsPhrase .low)) :
    StopsWithin calls (bracketed inner) BeginsFactor := by
  refine .bind (stopsWithin_satisfy beginsFactor_nil) fun s _ s₁ hclosing => ?_
  rw [reads_closing_iff] at hclosing
  refine ⟨[.closing], by rw [hclosing]; rfl, ?_⟩
  refine .bind (hstops.mono fun us hus => hus.closing) fun _ arg s₂ hin => ?_
  obtain ⟨δ, hδ, -⟩ := hreads _ _ _ hin
  refine ⟨δ.keys.reverse, hδ, ?_⟩
  have hbegins : BeginsPhrase .low δ.keys.reverse := ⟨δ, List.prefix_rfl⟩
  refine .bind (stopsWithin_satisfy ?_) fun _ _ s₃ hopening => ?_
  · rw [List.append_nil]
    exact hbegins.closing
  · rw [reads_opening_iff] at hopening
    exact ⟨[.opening], by rw [hopening]; rfl, stopsWithin_optional _ _⟩

/-- A factor that is refused stops within one that could be typed. -/
theorem stopsWithin_factor {inner : KeyParser V (Expr V)}
    (hreads : ReadsPhrases calls .low inner) (hstops : StopsWithin calls inner (BeginsPhrase .low)) :
    StopsWithin calls (factor inner) BeginsFactor := by
  refine .orElse (.orElse (stopsWithin_bracketed hreads hstops) ?_) ?_
  · exact .map (.many (stopsWithin_satisfy beginsFactor_nil) false) _
  · exact .map (stopsWithin_satisfy beginsFactor_nil) _

variable {reenter : Tier → KeyParser V (Expr V)}

/-- An operand that is refused stops within one that could be typed. -/
theorem stopsWithin_operand (hreads : ∀ t, ReadsPhrases calls t (reenter t))
    (hstops : ∀ t, StopsWithin calls (reenter t) (BeginsPhrase t)) (t : Tier) :
    StopsWithin calls (operand reenter t) (BeginsOperand t) := by
  -- each tier has the next one for its operands, and the highest has factors
  cases t with
  | low =>
    refine (hstops .middle).mono fun us hus => ?_
    obtain ⟨δ, hδ⟩ := hus
    exact ⟨.middle δ, hδ⟩
  | middle =>
    refine (hstops .high).mono fun us hus => ?_
    obtain ⟨δ, hδ⟩ := hus
    exact ⟨.high δ, hδ⟩
  | high =>
    refine .map (.many ?_ false) _
    exact (stopsWithin_factor (hreads .low) (hstops .low)).mono fun us hus =>
      hus.beginsOperand .high

/-- **A rule stops within a phrase**, if the expressions inside it do. What stands before an operand
may be missing, so it is the operand that stops, or the expression before a trailing operator. -/
theorem stopsWithin_rule (hreads : ∀ t, ReadsPhrases calls t (reenter t))
    (hstops : ∀ t, StopsWithin calls (reenter t) (BeginsPhrase t)) (t : Tier) :
    StopsWithin calls (rule reenter t) (BeginsPhrase t) := by
  refine .orElse (.bind ?_ fun s rhs mid hrhs => ?_) (.bind ?_ fun s op mid hop => ?_)
  · exact (stopsWithin_operand hreads hstops t).mono fun us hus => hus.beginsPhrase
  · obtain ⟨ω, hω, -⟩ := reads_operand hreads hrhs
    exact ⟨_, hω, stopsWithin_optional _ _⟩
  · exact stopsWithin_satisfy (beginsPhrase_nil t)
  · obtain ⟨hs, htier⟩ := reads_trailing_iff.1 hop
    refine ⟨[.operator op.operator], by rw [hs]; rfl, .map ?_ _⟩
    exact (hstops t).mono fun us hus => hus.trailing htier

end Rules

/-- Calls of any depth stop within phrases. -/
theorem stopsWithin_runRule (fuel : Nat) (t : Tier) :
    StopsWithin (Parser.runRule (uncapped (V := V)) fuel) (.call t) (BeginsPhrase t) := by
  induction fuel generalizing t with
  | zero =>
    rintro s e ⟨he, -⟩
    cases he
  | succ fuel ih => exact stopsWithin_rule (readsPhrases_runRule fuel) ih t

/-- **Where the free grammar stops**: the failure points at the front of what it leaves, and the keys
before that begin a phrase. -/
theorem free_stops {t : Tier} {s : Stream (Key V)} {e : Failure (Stream (Key V)) (Key V)}
    (h : free t s = .error e) (hfatal : e.kind.isFatal = false) :
    e.Points ∧ ∃ us, s.items = us ++ e.rest.items ∧ BeginsPhrase t us :=
  stopsWithin_runRule (weight s.items + 3) t s e ⟨h ▸ runRule_weight t s, hfatal⟩

/-! ## Whole sequences of keys -/

/-- Without a limit on nesting the keys of a phrase are an expression. -/
theorem complete_free_phrase (δ : Phrase V .low) :
    Parser.complete (free .low (reversed δ.keys)) = .ok δ.tree := by
  have hread := δ.reads 0 Stops.nil
  rw [List.append_nil, Parser.reads_call] at hread
  rw [reversed, Option.some.inj hread]
  rfl

/-- Where the parse of some keys fails, unless nesting is exceeded, the failure points at the front
of what is left, and the keys before that begin a phrase. -/
theorem parse_stops {keys : List (Key V)} {e : Failure (Stream (Key V)) (Key V)}
    (h : parse keys = .error e) (hdeep : e.kind ≠ .tooDeep) :
    e.Points ∧ ∃ us, keys.reverse = us ++ e.rest.items ∧ BeginsPhrase .low us := by
  have hmatches := expression_matches .low keys.reverse 0 0
  rw [parse, reversed] at h
  cases hexpr : expression .low ⟨keys.reverse, 0⟩ with
  | error err =>
    rw [hexpr] at h hmatches
    -- below the limit the free grammar fails in the same way
    obtain rfl := Except.error.inj h
    have hfatal : err.kind.isFatal = false :=
      Bool.eq_false_iff.2 fun hfatal => hdeep ((FailureKind.isFatal_iff _).1 hfatal)
    obtain ⟨n, hn⟩ := hmatches.eq_error hfatal
    exact free_stops (Option.some.inj hn) hfatal
  | ok result =>
    -- an expression was read, and there are keys before it
    obtain ⟨a, us, d⟩ := result
    obtain rfl : d = 0 := expression_depth hexpr
    rw [hexpr] at h hmatches
    rw [Parser.complete] at h
    split at h
    · cases h
    · next hleft =>
      obtain rfl := Except.error.inj h
      obtain ⟨δ, hitems, -⟩ := free_sound (Option.some.inj hmatches.eq_ok)
      refine ⟨⟨⟨?_, ?_⟩, ?_⟩, _, hitems, δ, List.prefix_rfl⟩
      · intro hkind
        cases hkind
      · intro hnil
        exact absurd (congrArg List.length hnil) hleft
      · intro t ht
        cases ht

/-- **Parse errors point at the mistake.** Where the parse of some keys fails, the first `k` of them
are left, and the error shows the last ones of these. Unless nesting is exceeded, the keys ended too
early exactly if none is left, a key that is told is the last one left and shown, and the keys that
have been read are the end of an expression of the grammar without a limit. -/
theorem parse_error_at_mistake {keys : List (Key V)} {e : Failure (Stream (Key V)) (Key V)}
    (hkeys : keys ≠ []) (h : parse keys = .error e) :
    let k := e.rest.items.length
    e.rest.items = (keys.take k).reverse ∧
      Expr.ofKeys keys = .error (.unexpected (Key.textOf (keysShown keys k))) ∧
      (e.kind ≠ .tooDeep →
        (e.kind = .exhausted ↔ k = 0) ∧
        (∀ t, e.kind.item? = some t →
          k ≠ 0 ∧ keys[k - 1]? = some t ∧ (keysShown keys k).getLast? = some t) ∧
        ∃ front tree,
          Parser.complete (free .low (reversed (front ++ keys.drop k))) = .ok tree) := by
  intro k
  obtain ⟨n, hn, hitems⟩ := exists_take_of_parse_error h
  obtain rfl : n = k := by
    rw [show k = _ from congrArg List.length hitems, List.length_reverse, List.length_take_of_le hn]
  refine ⟨hitems, ?_, fun hdeep => ?_⟩
  · rw [Expr.ofKeys, if_neg (by rwa [List.isEmpty_iff]), h, Parser.mapError_error,
      ParseError.ofFailure, hitems, nearKeys_reverse_take hn]
  · obtain ⟨⟨hexhausted, hitem⟩, us, hus, δ, hδ⟩ := parse_stops h hdeep
    refine ⟨hexhausted.trans List.length_eq_zero_iff.symm, fun t ht => ?_, ?_⟩
    · -- a key that is told is the next one that would be read, so the last one left
      have hlast : (keys.take k).getLast? = some t := by
        rw [← List.head?_reverse, ← hitems]
        exact hitem t ht
      have hpos : k ≠ 0 := by
        intro hk
        rw [hk] at hlast
        cases hlast
      refine ⟨hpos, ?_, by rw [getLast?_keysShown hn hpos, hlast]⟩
      rw [List.getLast?_eq_getElem?, List.length_take_of_le hn, List.getElem?_take,
        if_pos (Nat.sub_lt (Nat.pos_of_ne_zero hpos) Nat.one_pos)] at hlast
      exact hlast
    · -- the keys that have been read are those behind the keys left
      have hsplit : keys.take k ++ us.reverse = keys := by
        rw [← List.reverse_inj, List.reverse_append, List.reverse_reverse, ← hitems, hus]
      have hdrop : us.reverse = keys.drop k :=
        List.append_cancel_left (hsplit.trans (List.take_append_drop k keys).symm)
      obtain ⟨front, hfront⟩ := List.reverse_suffix.2 hδ
      rw [List.reverse_reverse, hdrop] at hfront
      exact ⟨front, δ.tree, by rw [hfront, complete_free_phrase]⟩

/-- In `2+)` nothing is wrong with the bracket, which may end an expression, but the plus cannot
stand before it. -/
theorem parse_error_at_plus :
    let keys : List (Key Nat) := [.digit 2, .operator .plus, .closing]
    keys ≠ [] ∧
      parse keys = .error ⟨.mismatch (.operator .plus), ⟨[.operator .plus, .digit 2], 5⟩⟩ ∧
      Expr.ofKeys keys = .error (.unexpected (Key.textOf ([.digit 2, .operator .plus] : List (Key Nat)))) ∧
      ∃ front tree, Parser.complete (free .low (reversed (front ++ [.closing]))) =
        .ok (tree : Expr Nat) := by
  -- six calls inside each other are enough to come to the outcome
  have hgives : Gives (capped (V := Nat)) (capped .low)
      (reversed [.digit 2, .operator .plus, .closing])
      (.error ⟨.mismatch (.operator .plus), ⟨[.operator .plus, .digit 2], 5⟩⟩) :=
    ⟨6, by with_unfolding_all rfl⟩
  intro keys
  have hkeys : keys ≠ [] := List.cons_ne_nil _ _
  have hparse : parse keys =
      .error ⟨.mismatch (.operator .plus), ⟨[.operator .plus, .digit 2], 5⟩⟩ := by
    rw [parse, (gives_expression .low (reversed keys)).unique hgives]
    rfl
  obtain ⟨-, htext, hmistake⟩ := parse_error_at_mistake hkeys hparse
  have hdeep : FailureKind.mismatch (Key.operator Operator.plus : Key Nat) ≠ .tooDeep := by
    intro h
    cases h
  exact ⟨hkeys, hparse, htext, (hmistake hdeep).2.2⟩

end Grammar

end Keypad
