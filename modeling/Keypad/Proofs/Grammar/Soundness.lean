import Keypad.Proofs.Grammar.Free
import Keypad.Proofs.Grammar.Keys
import Keypad.Proofs.Grammar.Phrase

/-! # What the grammar reads is a phrase

Whenever a tier is read, the keys consumed are the reversed keys of a phrase of that tier, and the
result is the tree of the phrase. Each rule is sound if the expressions inside it are, and the free
grammar is sound by induction on how deep its rules call each other. -/

namespace Keypad.Grammar

variable {V : Type}

section Rules

variable {calls : Calls V} {s rest : Stream (Key V)} {e : Expr V}

/-! ## Numerals -/

/-- A run of digits and points takes all of them, from the last one to the first. -/
theorem reads_digits {allowEmpty : Bool} {ns : List (Numeric V)}
    (h : (Parser.many (.satisfy Key.numeric? Numeric.isNumeral) allowEmpty).Reads calls s ns rest) :
    ∃ n : Numeral, s.items = n.map Numeral.key ++ rest.items ∧ ns = n.map numericOf ∧
      (n = [] → allowEmpty = true) ∧ ∀ c us, rest.items ≠ Numeral.key c :: us := by
  -- a repetition is no recursion on its input, so the induction is on the length of that
  induction hlen : s.items.length using Nat.strongRecOn generalizing s ns allowEmpty with
  | ind len ih =>
    rcases Parser.reads_many h with ⟨href, rfl, rfl, hempty⟩ | ⟨a, mid, as, hread, rfl, hrest⟩
    · exact ⟨[], rfl, rfl, fun _ => hempty, refuses_numeral_key_iff.1 href⟩
    · obtain ⟨c, rfl, rfl⟩ := reads_numeral_key_iff.1 hread
      rcases hrest with ⟨hlt, hmany⟩ | ⟨hlt, -, -⟩
      · obtain ⟨n, hitems, rfl, -, hmax⟩ := ih _ (hlen ▸ hlt) hmany rfl
        exact ⟨c :: n, by rw [hitems, List.map_cons, List.cons_append], rfl, nofun, hmax⟩
      · exact absurd (Nat.lt_succ_self _) hlt

/-- What is read as a numeral are the keys of one, up to what is no figure. -/
theorem reads_numeral (h : numeral.Reads calls s e rest) :
    ∃ n : Numeral, n ≠ [] ∧ s.items = (Numeral.keys n).reverse ++ rest.items ∧ numeralTree n = e ∧
      ∀ c us, rest.items ≠ Numeral.key c :: us := by
  obtain ⟨ns, hmany, rfl⟩ := Parser.reads_map.1 h
  obtain ⟨n, hitems, rfl, hempty, hmax⟩ := reads_digits hmany
  have hn : n.reverse ≠ [] := fun hn => Bool.false_ne_true (hempty (List.reverse_eq_nil_iff.1 hn))
  refine ⟨n.reverse, hn, ?_, ?_, hmax⟩
  · rw [hitems, Numeral.keys, List.map_reverse, List.reverse_reverse]
  · rw [← numeralOf_map hn, List.map_reverse]

/-! ## Factors -/

/-- The parser `p` reads phrases of a tier only. -/
def ReadsPhrases (calls : Calls V) (t : Tier) (p : KeyParser V (Expr V)) : Prop :=
  ∀ s e rest, p.Reads calls s e rest →
    ∃ δ : Phrase V t, s.items = δ.keys.reverse ++ rest.items ∧ δ.tree = e

/-- What is read in brackets are the keys of a factor, with a function if there is one. -/
theorem reads_bracketed {inner : KeyParser V (Expr V)} (hinner : ReadsPhrases calls .low inner)
    (h : (bracketed inner).Reads calls s e rest) :
    ∃ f : Factor V false, s.items = f.keys.reverse ++ rest.items ∧ f.tree = e := by
  obtain ⟨_, s₁, hclosing, h⟩ := Parser.reads_bind.1 h
  obtain ⟨arg, s₂, hin, h⟩ := Parser.reads_bind.1 h
  obtain ⟨_, s₃, hopening, h⟩ := Parser.reads_bind.1 h
  obtain ⟨p, hp, rfl⟩ := hinner _ _ _ hin
  rw [reads_closing_iff] at hclosing
  rw [reads_opening_iff] at hopening
  -- with a function in front the brackets are its argument
  rcases Parser.reads_orElse.1 h with h | ⟨-, h⟩
  · obtain ⟨g, hg, rfl⟩ := Parser.reads_map.1 h
    rw [reads_function_iff] at hg
    refine ⟨.apply g p, ?_, rfl⟩
    rw [hclosing, hp, hopening, hg]
    simp [Factor.keys]
  · obtain ⟨rfl, rfl⟩ := Parser.reads_pure.1 h
    refine ⟨.bracketed p, ?_, rfl⟩
    rw [hclosing, hp, hopening]
    simp [Factor.keys]

/-- What is read as a factor is one. After a numeral no further key of one is left. -/
theorem reads_factor {inner : KeyParser V (Expr V)} (hinner : ReadsPhrases calls .low inner)
    (h : (factor inner).Reads calls s e rest) :
    ∃ b, ∃ f : Factor V b, s.items = f.keys.reverse ++ rest.items ∧ f.tree = e ∧
      (b = true → ∀ c us, rest.items ≠ Numeral.key c :: us) := by
  rcases Parser.reads_orElse.1 h with h | ⟨-, h⟩
  · rcases Parser.reads_orElse.1 h with h | ⟨-, h⟩
    · obtain ⟨f, hf, rfl⟩ := reads_bracketed hinner h
      exact ⟨false, f, hf, rfl, nofun⟩
    · obtain ⟨n, hn, hitems, rfl, hmax⟩ := reads_numeral h
      exact ⟨true, .numeral n hn, hitems, rfl, fun _ => hmax⟩
  · obtain ⟨c, rfl, rfl⟩ := reads_constant_iff.1 h
    exact ⟨false, .constant c, rfl, rfl, nofun⟩

/-- What is read as several factors is nothing or factors next to each other, the last one first. -/
theorem reads_factors {inner : KeyParser V (Expr V)} (hinner : ReadsPhrases calls .low inner)
    {es : List (Expr V)} {allowEmpty : Bool}
    (h : (Parser.many (factor inner) allowEmpty).Reads calls s es rest) :
    (es = [] ∧ rest = s ∧ allowEmpty = true) ∨
      ∃ b, ∃ fs : Factors V b, s.items = fs.keys.reverse ++ rest.items ∧ fs.trees = es.reverse := by
  -- a repetition is no recursion on its input, so the induction is on the length of that
  induction hlen : s.items.length using Nat.strongRecOn generalizing s es allowEmpty with
  | ind len ih =>
    rcases Parser.reads_many h with ⟨-, rfl, rfl, hempty⟩ | ⟨e, mid, es, hread, rfl, hrest⟩
    · exact .inl ⟨rfl, rfl, hempty⟩
    · obtain ⟨b, f, hitems, rfl, hmax⟩ := reads_factor hinner hread
      -- every factor has a key, so the repetition goes on
      obtain ⟨ks, k, hlast, -⟩ := f.keys_eq_append
      have hlt : mid.items.length < s.items.length := by
        rw [hitems, hlast, List.length_append, List.length_reverse, List.length_append,
          List.length_singleton]
        omega
      rcases hrest with ⟨-, hmany⟩ | ⟨hge, -, -⟩
      · rcases ih _ (hlen ▸ hlt) hmany rfl with ⟨rfl, rfl, -⟩ | ⟨a, fs, hfs, htrees⟩
        · exact .inr ⟨b, .single f, hitems, rfl⟩
        · have hab : (a && b) = false := by
            -- a numeral right before a numeral would have been read as part of it
            refine Bool.eq_false_iff.2 fun hab => ?_
            obtain ⟨rfl, rfl⟩ := (Bool.and_eq_true_iff).1 hab
            obtain ⟨us, k', hlast', hends⟩ := fs.keys_eq_append
            cases hends with
            | numeral c =>
              refine hmax rfl c (us.reverse ++ rest.items) ?_
              rw [hfs, hlast', List.reverse_append, List.append_assoc]
              rfl
          refine .inr ⟨b, .snoc fs f hab, ?_, ?_⟩
          · rw [Factors.keys, List.reverse_append, List.append_assoc, ← hfs, hitems]
          · rw [Factors.trees, htrees, List.reverse_cons]
      · exact absurd hlt hge

/-! ## The rules -/

variable {reenter : Tier → KeyParser V (Expr V)}

/-- What is read as an operand are the keys of one. -/
theorem reads_operand (hre : ∀ t, ReadsPhrases calls t (reenter t)) {t : Tier}
    (h : (operand reenter t).Reads calls s e rest) :
    ∃ ω : Operand V t, s.items = ω.keys.reverse ++ rest.items ∧ ω.tree = e := by
  cases t with
  | low =>
    obtain ⟨δ, hδ, rfl⟩ := hre .middle _ _ _ h
    exact ⟨.middle δ, hδ, rfl⟩
  | middle =>
    obtain ⟨δ, hδ, rfl⟩ := hre .high _ _ _ h
    exact ⟨.high δ, hδ, rfl⟩
  | high =>
    obtain ⟨es, hmany, rfl⟩ := Parser.reads_map.1 h
    rcases reads_factors (hre .low) hmany with ⟨-, -, hempty⟩ | ⟨b, fs, hfs, htrees⟩
    · cases hempty
    · refine ⟨.factors fs, hfs, ?_⟩
      rw [Operand.tree, htrees]

/-- **A rule reads phrases only**, if the expressions inside it do. -/
theorem readsPhrases_rule (hre : ∀ t, ReadsPhrases calls t (reenter t)) (t : Tier) :
    ReadsPhrases calls t (rule reenter t) := by
  intro s e rest h
  -- an operand with a binary operator, a leading one or nothing before it, or a trailing operator
  rcases Parser.reads_orElse.1 h with h | ⟨-, h⟩
  · obtain ⟨rhs, mid, hrhs, h⟩ := Parser.reads_bind.1 h
    obtain ⟨ω, hω, rfl⟩ := reads_operand hre hrhs
    rcases Parser.reads_orElse.1 h with h | ⟨-, h⟩
    · rcases Parser.reads_orElse.1 h with h | ⟨-, h⟩
      · obtain ⟨op, s₁, hop, h⟩ := Parser.reads_bind.1 h
        obtain ⟨lhs, hlhs, rfl⟩ := Parser.reads_map.1 h
        obtain ⟨rfl, htier⟩ := reads_binary_iff.1 hop
        obtain ⟨δ, hδ, rfl⟩ := hre t _ _ _ hlhs
        refine ⟨.binary δ op htier ω, ?_, rfl⟩
        rw [hω, hδ]
        simp [Phrase.keys]
      · obtain ⟨op, hop, rfl⟩ := Parser.reads_map.1 h
        obtain ⟨rfl, htier⟩ := reads_leading_iff.1 hop
        refine ⟨.leading op htier ω, ?_, rfl⟩
        rw [hω]
        simp [Phrase.keys]
    · obtain ⟨rfl, rfl⟩ := Parser.reads_pure.1 h
      exact ⟨.operand ω, hω, rfl⟩
  · obtain ⟨op, s₁, hop, h⟩ := Parser.reads_bind.1 h
    obtain ⟨lhs, hlhs, rfl⟩ := Parser.reads_map.1 h
    obtain ⟨rfl, htier⟩ := reads_trailing_iff.1 hop
    obtain ⟨δ, hδ, rfl⟩ := hre t _ _ _ hlhs
    refine ⟨.trailing δ op htier, ?_, rfl⟩
    rw [hδ]
    simp [Phrase.keys]

end Rules

/-- Calls of any depth read phrases only. -/
theorem readsPhrases_runRule (fuel : Nat) (t : Tier) :
    ReadsPhrases (V := V) (Parser.runRule uncapped fuel) t (.call t) := by
  induction fuel generalizing t with
  | zero =>
    intro s e rest h
    cases h
  | succ fuel ih => exact readsPhrases_rule ih t

/-- **The free grammar is sound**: what it reads is a phrase, and its result is the tree of it. -/
theorem free_sound {t : Tier} {s rest : Stream (Key V)} {e : Expr V}
    (h : free t s = .ok (e, rest)) :
    ∃ δ : Phrase V t, s.items = δ.keys.reverse ++ rest.items ∧ δ.tree = e :=
  readsPhrases_runRule (weight s.items + 3) t s e rest
    (Parser.reads_call.2 (h ▸ runRule_weight t s))

end Keypad.Grammar
