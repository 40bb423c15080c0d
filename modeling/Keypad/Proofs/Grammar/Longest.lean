import Keypad.Calculation
import Keypad.Proofs.Grammar.Greedy
import Keypad.Proofs.Grammar.Unambiguity

/-! # The longest phrase at the end

What the capped grammar makes of keys in typing order. Unless nesting is exceeded, a tier reads the
longest phrase of that tier at the end of the keys, whatever the depth it begins at, and fails only
where no phrase ends. So the whole of some keys is an expression exactly if they are a phrase of the
loosest tier. -/

namespace Keypad

namespace Grammar

variable {V : Type}

/-- A phrase is **longest** at the end of some keys if it ends there and no longer one of its tier
does. -/
structure Phrase.IsLongest {t : Tier} (δ : Phrase V t) (keys : List (Key V)) : Prop where
  suffix : δ.keys <:+ keys
  longest : ∀ δ' : Phrase V t, δ'.keys <:+ keys → δ'.keys.length ≤ δ.keys.length

/-- Some keys are **derivable** from a tier if they are the keys of a phrase of it. -/
def Derivable (t : Tier) (keys : List (Key V)) : Prop := ∃ δ : Phrase V t, δ.keys = keys

/-! ## The free grammar -/

/-- Where a phrase ends some keys, the free grammar reads them. -/
theorem free_readsPast {t : Tier} (δ : Phrase V t) {keys : List (Key V)} (h : δ.keys <:+ keys)
    (d : Nat) :
    ∃ e us, free t ⟨keys.reverse, d⟩ = .ok (e, ⟨us, d⟩) ∧ us.length + δ.keys.length ≤ keys.length := by
  obtain ⟨front, rfl⟩ := h
  obtain ⟨e, us, hread, hlen⟩ := δ.readsPast front.reverse d
  refine ⟨e, us, ?_, ?_⟩
  · rw [List.reverse_append]
    exact Option.some.inj (Parser.reads_call.1 hread)
  · rw [List.length_reverse] at hlen
    rw [List.length_append]
    omega

/-- What the free grammar reads is the longest phrase at the end of the keys. -/
theorem free_isLongest {t : Tier} {keys us : List (Key V)} {d : Nat} {e : Expr V}
    (h : free t ⟨keys.reverse, d⟩ = .ok (e, ⟨us, d⟩)) :
    ∃ δ : Phrase V t, keys = us.reverse ++ δ.keys ∧ δ.tree = e ∧ δ.IsLongest keys := by
  obtain ⟨δ, hitems, rfl⟩ := free_sound h
  dsimp only at hitems
  have hkeys : keys = us.reverse ++ δ.keys := by
    rw [← List.reverse_reverse keys, hitems, List.reverse_append, List.reverse_reverse]
  refine ⟨δ, hkeys, rfl, ⟨us.reverse, hkeys.symm⟩, fun δ' hδ' => ?_⟩
  -- no more keys are left than before the other phrase, so it is not longer
  obtain ⟨e', us', hread, hlen⟩ := free_readsPast δ' hδ' d
  rw [h] at hread
  cases hread
  rw [hkeys, List.length_append, List.length_reverse] at hlen
  omega

/-! ## The capped grammar -/

/-- **What becomes of some keys**: nesting is exceeded, or the longest phrase at their end is read,
or no phrase ends them. -/
theorem expression_cases (t : Tier) (keys : List (Key V)) (d : Nat) :
    (∃ err, expression t ⟨keys.reverse, d⟩ = .error err ∧ err.kind = .tooDeep) ∨
      (∃ (δ : Phrase V t) (front : List (Key V)), keys = front ++ δ.keys ∧ δ.IsLongest keys ∧
        expression t ⟨keys.reverse, d⟩ = .ok (δ.tree, ⟨front.reverse, d⟩)) ∨
      ∃ err, expression t ⟨keys.reverse, d⟩ = .error err ∧ err.kind ≠ .tooDeep ∧
        ∀ δ : Phrase V t, ¬ δ.keys <:+ keys := by
  have hmatches := expression_matches t keys.reverse d d
  cases hexpr : expression t ⟨keys.reverse, d⟩ with
  | error err =>
    rw [hexpr] at hmatches
    -- a failure that is not fatal is one of the free grammar, which reads every phrase
    by_cases hfatal : err.kind.isFatal = true
    · exact .inl ⟨err, rfl, (FailureKind.isFatal_iff _).1 hfatal⟩
    · refine .inr (.inr ⟨err, rfl, fun h => hfatal ((FailureKind.isFatal_iff _).2 h), ?_⟩)
      intro δ hδ
      obtain ⟨n, hn⟩ := hmatches.eq_error (Bool.eq_false_iff.2 hfatal)
      obtain ⟨e, us, hread, -⟩ := free_readsPast δ hδ d
      cases hread.symm.trans (Option.some.inj hn)
  | ok result =>
    -- what the limited grammar reads the free one reads as well
    obtain ⟨e, us, d'⟩ := result
    obtain rfl : d' = d := expression_depth hexpr
    rw [hexpr] at hmatches
    obtain ⟨δ, hkeys, rfl, hlongest⟩ := free_isLongest (Option.some.inj hmatches.eq_ok)
    refine .inr (.inl ⟨δ, us.reverse, hkeys, hlongest, ?_⟩)
    rw [List.reverse_reverse]

/-! ## Whole sequences of keys -/

/-- **Keys are parsed exactly if they are a phrase**, unless nesting is exceeded. -/
theorem parse_cases (keys : List (Key V)) :
    (∃ err, parse keys = .error err ∧ err.kind = .tooDeep) ∨
      (∃ δ : Phrase V .low, δ.keys = keys ∧ parse keys = .ok δ.tree) ∨
      ∃ err, parse keys = .error err ∧ err.kind ≠ .tooDeep ∧ ¬ Derivable .low keys := by
  rw [parse, reversed]
  rcases expression_cases .low keys 0 with
    ⟨err, herr, hdeep⟩ | ⟨δ, front, hkeys, hlongest, hok⟩ | ⟨err, herr, hkind, hnone⟩
  · exact .inl ⟨err, by rw [herr, Parser.complete], hdeep⟩
  · rw [hok, Parser.complete, Stream.remaining_eq, List.length_reverse]
    by_cases hfront : front = []
    · subst hfront
      exact .inr (.inl ⟨δ, hkeys.symm, if_pos rfl⟩)
    · -- keys are left over, although all of them would be the longest phrase
      refine .inr (.inr ⟨_, if_neg fun h => hfront (List.length_eq_zero_iff.1 h), nofun, ?_⟩)
      rintro ⟨δ', hδ'⟩
      have hlen := hlongest.longest δ' ⟨[], hδ'⟩
      have hpos := List.length_pos_iff.2 hfront
      rw [hδ', hkeys, List.length_append] at hlen
      omega
  · refine .inr (.inr ⟨err, by rw [herr, Parser.complete], hkind, ?_⟩)
    rintro ⟨δ, hδ⟩
    exact hnone δ ⟨[], hδ⟩

/-- No keys are no phrase, so leaving them out before parsing makes no difference. -/
theorem ofKeys_eq_ok_iff {keys : List (Key V)} {e : Expr V} :
    Expr.ofKeys keys = .ok e ↔ parse keys = .ok e := by
  rw [Expr.ofKeys]
  by_cases hkeys : keys.isEmpty = true
  · rw [if_pos hkeys]
    obtain rfl := List.isEmpty_iff.1 hkeys
    refine ⟨nofun, fun h => ?_⟩
    rcases parse_cases ([] : List (Key V)) with ⟨err, herr, -⟩ | ⟨δ, hδ, -⟩ | ⟨err, herr, -⟩
    · cases herr.symm.trans h
    · exact absurd hδ δ.keys_ne_nil
    · cases herr.symm.trans h
  · rw [if_neg hkeys]
    cases parse keys with
    | error err => exact ⟨nofun, nofun⟩
    | ok e' => exact ⟨fun h => congrArg _ (Except.ok.inj h), fun h => congrArg _ (Except.ok.inj h)⟩

/-- Whatever is parsed is a phrase. -/
theorem exists_phrase_of_ofKeys {keys : List (Key V)} {e : Expr V} (h : Expr.ofKeys keys = .ok e) :
    ∃ δ : Phrase V .low, δ.keys = keys ∧ δ.tree = e := by
  rw [ofKeys_eq_ok_iff] at h
  rcases parse_cases keys with ⟨err, herr, -⟩ | ⟨δ, hδ, hok⟩ | ⟨err, herr, -⟩
  · cases herr.symm.trans h
  · exact ⟨δ, hδ, Except.ok.inj (hok.symm.trans h)⟩
  · cases herr.symm.trans h

/-- The keys of a phrase are parsed as its tree, unless nesting is exceeded. -/
theorem ofKeys_phrase (δ : Phrase V .low) :
    (∃ err, parse δ.keys = .error err ∧ err.kind = .tooDeep) ∨
      Expr.ofKeys δ.keys = .ok δ.tree := by
  rcases parse_cases δ.keys with hdeep | ⟨δ', hδ', hok⟩ | ⟨err, -, -, hnone⟩
  · exact .inl hdeep
  · rw [Phrase.keys_injective hδ'] at hok
    exact .inr (ofKeys_eq_ok_iff.2 hok)
  · exact absurd ⟨δ, rfl⟩ hnone

/-- Within the budget nesting is not exceeded. -/
theorem parse_not_tooDeep {keys : List (Key V)} (h : weight keys + 2 ≤ maxNesting)
    {err : Failure (Stream (Key V)) (Key V)} (herr : parse keys = .error err) :
    err.kind ≠ .tooDeep := by
  intro hdeep
  rw [parse, reversed] at herr
  cases hexpr : expression .low ⟨keys.reverse, 0⟩ with
  | ok result =>
    obtain ⟨e, rest⟩ := result
    rw [hexpr, Parser.complete] at herr
    split at herr <;> cases herr
    cases hdeep
  | error err' =>
    rw [hexpr, Parser.complete] at herr
    cases herr
    -- the budget pays for the whole run, so no failure of it is fatal
    have hrun := (runRule_expression .low (Stream.mk keys.reverse 0)).trans (congrArg _ hexpr)
    have hweight : 0 + (2 - Tier.low.level) + weight keys.reverse ≤ maxNesting := by
      rw [weight_reverse, Tier.level]
      omega
    have hfatal := not_fatal_of_weight_le (by omega) hweight hrun
    rw [(FailureKind.isFatal_iff _).2 hdeep] at hfatal
    cases hfatal

/-- Within the budget the keys of a phrase are parsed as its tree. -/
theorem ofKeys_of_weight_le (δ : Phrase V .low) (h : weight δ.keys + 2 ≤ maxNesting) :
    Expr.ofKeys δ.keys = .ok δ.tree := by
  refine (ofKeys_phrase δ).resolve_left ?_
  rintro ⟨err, herr, hdeep⟩
  exact parse_not_tooDeep h herr hdeep

/-- **The grammar reads the longest phrase**, unless nesting is exceeded. A tier succeeds exactly if
keys that are derivable from it end the keys given, it takes as many of them as it can, and its
result is the tree of the only derivation of those taken. So whole sequences of keys are parsed
exactly if they are derivable from the loosest tier. -/
theorem expression_reads_longest (t : Tier) (keys : List (Key V)) (d : Nat) :
    ((∃ err, expression t ⟨keys.reverse, d⟩ = .error err ∧ err.kind = .tooDeep) ∨
      ((∃ e rest, expression t ⟨keys.reverse, d⟩ = .ok (e, rest)) ↔
          ∃ ks, ks ≠ [] ∧ ks <:+ keys ∧ Derivable t ks) ∧
        ∀ e rest, expression t ⟨keys.reverse, d⟩ = .ok (e, rest) →
          ∃ (δ : Phrase V t) (front : List (Key V)), keys = front ++ δ.keys ∧
            rest = ⟨front.reverse, d⟩ ∧ e = δ.tree ∧
            (∀ ks, ks <:+ keys → Derivable t ks → ks.length ≤ δ.keys.length) ∧
            ∀ δ' : Phrase V t, δ'.keys = δ.keys → δ' = δ) ∧
    ((∃ err, parse keys = .error err ∧ err.kind = .tooDeep) ∨
      ((∃ e, Expr.ofKeys keys = .ok e) ↔ Derivable .low keys)) := by
  constructor
  · rcases expression_cases t keys d with
      hdeep | ⟨δ, front, hkeys, hlongest, hok⟩ | ⟨err, herr, -, hnone⟩
    · exact .inl hdeep
    · -- a longest phrase was read
      refine .inr ⟨⟨fun _ => ⟨δ.keys, δ.keys_ne_nil, hlongest.suffix, δ, rfl⟩,
        fun _ => ⟨_, _, hok⟩⟩, fun e rest h => ?_⟩
      cases hok.symm.trans h
      refine ⟨δ, front, hkeys, rfl, rfl, ?_, fun δ' => Phrase.keys_injective⟩
      rintro ks hks ⟨δ', rfl⟩
      exact hlongest.longest δ' hks
    · -- there is no phrase to read
      refine .inr ⟨⟨?_, ?_⟩, fun e rest h => ?_⟩
      · rintro ⟨e, rest, h⟩
        cases herr.symm.trans h
      · rintro ⟨ks, -, hks, δ, rfl⟩
        exact absurd hks (hnone δ)
      · cases herr.symm.trans h
  · by_cases hdeep : ∃ err, parse keys = .error err ∧ err.kind = .tooDeep
    · exact .inl hdeep
    · refine .inr ⟨?_, ?_⟩
      · rintro ⟨e, h⟩
        obtain ⟨δ, hδ, -⟩ := exists_phrase_of_ofKeys h
        exact ⟨δ, hδ⟩
      · rintro ⟨δ, rfl⟩
        exact ⟨δ.tree, (ofKeys_phrase δ).resolve_left hdeep⟩

end Grammar

end Keypad
