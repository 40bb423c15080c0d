import Keypad.Proofs.Grammar.Completeness

/-! # Nothing stops short

Whatever the keys before a phrase are, the tier of the phrase is read there, and no more keys are
left than those before it. Only the first operand in typing order can end elsewhere than in the
phrase, and it can only end further on: a later operand has an operator of its own tier before it, so
exactly that operand is read. -/

namespace Keypad.Grammar

variable {V : Type}

/-- The parser `p` **reads past** `rest`: it reads something and leaves no more keys than those. -/
def ReadsPast {α : Type} (p : KeyParser V α) (ts rest : List (Key V)) (d : Nat) : Prop :=
  ∃ a us, p.Reads freeCalls ⟨ts, d⟩ a ⟨us, d⟩ ∧ us.length ≤ rest.length

/-- What is read up to some keys is read past them. -/
theorem ReadsPast.of_reads {α : Type} {p : KeyParser V α} {ts rest : List (Key V)} {d : Nat} {a : α}
    (h : p.Reads freeCalls ⟨ts, d⟩ a ⟨rest, d⟩) : ReadsPast p ts rest d :=
  ⟨a, rest, h, Nat.le_refl _⟩

/-! ## Parsers that refuse nothing -/

/-- What may stand before an operand may also be missing, so it is always read. -/
theorem before_readsPast (t : Tier) (rhs : Expr V) (ts : List (Key V)) (d : Nat) :
    ReadsPast (before .call t rhs) ts ts d := by
  have hsafe : Safe freeCalls (d + (2 - t.level) + weight ts) d (2 - t.level) (before .call t rhs) :=
    safe_before (fun t' => safe_free _ d _ t') t rhs
  rcases hsafe ts (Nat.le_refl _) with ⟨e, us, hread, hsuf⟩ | href
  · exact ⟨e, us, hread, hsuf.length_le⟩
  · -- the last alternative is to read nothing
    exact absurd (Parser.refuses_orElse.1 href).2 Parser.not_refuses_pure

/-- Further factors may be missing, so they are always read. -/
theorem factors_readsPast (ts : List (Key V)) (d : Nat) :
    ReadsPast (Parser.many (factor (.call .low)) true) ts ts d := by
  have hsafe := safe_factor (safe_free (V := V) (d + 0 + weight ts) d 3 .low)
  obtain ⟨es, us, hread, hsuf⟩ := hsafe.reads_many ts (Nat.le_refl _)
  exact ⟨es, us, hread, hsuf.length_le⟩

/-- A call reads something or refuses the keys. -/
theorem call_reads_or_refuses (t : Tier) (ts : List (Key V)) (d : Nat) :
    ReadsPast (.call t) ts ts d ∨ (Parser.call t : KeyParser V (Expr V)).Refuses freeCalls ⟨ts, d⟩ := by
  rcases safe_free (d + 0 + weight ts) d 0 t ts (Nat.le_refl _) with ⟨e, us, hread, hsuf⟩ | href
  · exact .inl ⟨e, us, hread, hsuf.length_le⟩
  · exact .inr href

/-! ## Reading past what is before a phrase -/

section Call

variable {t : Tier} {ts us rest : List (Key V)} {d : Nat} {rhs : Expr V}

/-- A phrase is read past whatever its last operand is read past: what follows that is only read in
addition. -/
theorem call_readsPast_operand (h : ReadsPast (operand .call t) ts rest d) :
    ReadsPast (.call t) ts rest d := by
  obtain ⟨e, us, hread, hlen⟩ := h
  obtain ⟨e', vs, hbefore, hlen'⟩ := before_readsPast t e us d
  refine ⟨e', vs, reads_call_iff.2 ?_, Nat.le_trans hlen' hlen⟩
  exact Parser.reads_orElse.2 (.inl (Parser.reads_bind.2 ⟨e, ⟨us, d⟩, hread, hbefore⟩))

/-- After a binary operator the left operand decides how far is read. -/
theorem call_readsPast_binary {op : BinaryOp} (htier : op.tier = t)
    (h : (operand .call t).Reads freeCalls ⟨ts, d⟩ rhs ⟨.operator op.operator :: us, d⟩)
    (hlhs : ReadsPast (.call t) us rest d) : ReadsPast (.call t) ts rest d := by
  obtain ⟨lhs, vs, hread, hlen⟩ := hlhs
  exact ⟨_, vs, call_reads_binary htier h hread, hlen⟩

/-- A leading operator is read as one, or as a binary operator and an expression before it. -/
theorem call_readsPast_leading {op : PrefixOp} (htier : op.tier = t)
    (h : (operand .call t).Reads freeCalls ⟨ts, d⟩ rhs ⟨.operator op.operator :: rest, d⟩) :
    ReadsPast (.call t) ts rest d := by
  rcases call_reads_or_refuses t rest d with hreads | href
  · obtain ⟨op', hkey, htier'⟩ := op.exists_binary
    rw [← hkey] at h
    exact call_readsPast_binary (htier'.trans htier) h hreads
  · exact .of_reads (call_reads_leading htier h href)

/-- After a trailing operator its operand decides how far is read. -/
theorem call_readsPast_trailing {op : PostfixOp} (htier : op.tier = t)
    (hlhs : ReadsPast (.call t) us rest d) :
    ReadsPast (.call t) (.operator op.operator :: us) rest d := by
  obtain ⟨lhs, vs, hread, hlen⟩ := hlhs
  exact ⟨_, vs, call_reads_trailing htier hread, hlen⟩

end Call

/-! ## Factors -/

/-- A run of digits and points at the front of some keys, and what is left after it. -/
theorem exists_numeral_append (ts : List (Key V)) :
    ∃ (m : Numeral) (us : List (Key V)), ts = (Numeral.keys m).reverse ++ us ∧
      us.length ≤ ts.length ∧ ∀ c vs, us ≠ Numeral.key c :: vs := by
  induction ts with
  | nil => exact ⟨[], [], rfl, Nat.le_refl _, nofun⟩
  | cons k ts ih =>
    by_cases hk : ∃ c, k = Numeral.key c
    · obtain ⟨c, rfl⟩ := hk
      obtain ⟨m, us, rfl, hlen, hmax⟩ := ih
      refine ⟨m ++ [c], us, ?_, Nat.le_succ_of_le hlen, hmax⟩
      rw [Numeral.keys, Numeral.keys, List.map_append, List.reverse_append]
      rfl
    · refine ⟨[], k :: ts, rfl, Nat.le_refl _, fun c vs h => hk ⟨c, (List.cons.inj h).1⟩⟩

/-- A numeral is read together with the digits and points before it. -/
theorem factor_readsPast_numeral {n : Numeral} (hn : n ≠ []) (rest : List (Key V)) (d : Nat) :
    ReadsPast (factor (.call .low)) ((Numeral.keys n).reverse ++ rest) rest d := by
  obtain ⟨m, us, hrest, hlen, hmax⟩ := exists_numeral_append rest
  refine ⟨numeralTree (m ++ n), us, ?_, hlen⟩
  have hkeys : (Numeral.keys (V := V) n).reverse ++ ((Numeral.keys m).reverse ++ us) =
      (Numeral.keys (m ++ n)).reverse ++ us := by
    rw [Numeral.keys, Numeral.keys, Numeral.keys, List.map_append, List.reverse_append,
      List.append_assoc]
  rw [hrest, hkeys]
  exact factor_reads_numeral (List.append_ne_nil_of_right_ne_nil m hn) hmax d

/-- Factors are read past what is before them if the first one in typing order is. -/
theorem factors_readsPast_of_factor {b : Bool} (f : Factor V b) {rest : List (Key V)} {d : Nat}
    (allowEmpty : Bool) (h : ReadsPast (factor (.call .low)) (f.keys.reverse ++ rest) rest d) :
    ReadsPast (.many (factor (.call .low)) allowEmpty) (f.keys.reverse ++ rest) rest d := by
  obtain ⟨e, us, hread, hlen⟩ := h
  obtain ⟨es, vs, hmany, hlen'⟩ := factors_readsPast us d
  refine ⟨e :: es, vs, Parser.reads_many_cons hread ?_ hmany, Nat.le_trans hlen' hlen⟩
  obtain ⟨ks, k, hkeys, -⟩ := f.keys_eq_append
  show us.length < (f.keys.reverse ++ rest).length
  rw [hkeys, List.length_append, List.length_reverse, List.length_append, List.length_singleton]
  omega

/-! ## Phrases -/

mutual

/-- **Reading past a phrase**: where a phrase stands at the front of some keys, its tier is read and
no more keys are left than behind the phrase. -/
theorem Phrase.readsPast {t : Tier} : (δ : Phrase V t) → ∀ (rest : List (Key V)) (d : Nat),
    ReadsPast (.call t) (δ.keys.reverse ++ rest) rest d
  | .operand ω, rest, d => call_readsPast_operand (ω.readsPast rest d)
  | .binary lhs op h rhs, rest, d => by
    -- the operator stops the operand, and so the rule goes on in front of it
    have hop : op.tier.level < t.level + 1 := h ▸ Nat.lt_succ_self _
    have hrhs := rhs.reads d (Stops.operator (lhs.keys.reverse ++ rest) hop)
    rw [Phrase.keys, List.reverse_append, List.reverse_cons, List.append_assoc, List.append_assoc]
    exact call_readsPast_binary h hrhs (lhs.readsPast rest d)
  | .leading op h rhs, rest, d => by
    obtain ⟨op', hkey, htier⟩ := op.exists_binary
    have hop : op'.tier.level < t.level + 1 := htier ▸ h ▸ Nat.lt_succ_self _
    have hrhs := rhs.reads d (Stops.operator rest hop)
    rw [hkey] at hrhs
    rw [Phrase.keys, List.reverse_cons, List.append_assoc]
    exact call_readsPast_leading h hrhs
  | .trailing lhs op h, rest, d => by
    rw [Phrase.keys, List.reverse_append]
    exact call_readsPast_trailing h (lhs.readsPast rest d)

/-- Operands are read past what stands before them. -/
theorem Operand.readsPast {t : Tier} : (ω : Operand V t) → ∀ (rest : List (Key V)) (d : Nat),
    ReadsPast (operand .call t) (ω.keys.reverse ++ rest) rest d
  | .middle p, rest, d => p.readsPast rest d
  | .high p, rest, d => p.readsPast rest d
  | .factors fs, rest, d => by
    obtain ⟨es, us, hread, hlen⟩ := fs.readsPast rest false d
    exact ⟨.group es.reverse, us, operand_high_reads hread, hlen⟩

/-- So are factors. -/
theorem Factors.readsPast {b : Bool} : (fs : Factors V b) → ∀ (rest : List (Key V))
    (allowEmpty : Bool) (d : Nat),
      ReadsPast (.many (factor (.call .low)) allowEmpty) (fs.keys.reverse ++ rest) rest d
  | .single f, rest, allowEmpty, d => factors_readsPast_of_factor f allowEmpty (f.readsPast rest d)
  | .snoc fs f h, rest, allowEmpty, d => by
    obtain ⟨hfunction, hnumeral⟩ := fs.separates rest
    have hf := f.reads d hfunction fun hb => hnumeral (by rw [hb, Bool.and_true] at h; exact h)
    obtain ⟨es, us, hread, hlen⟩ := fs.readsPast rest true d
    rw [Factors.keys, List.reverse_append, List.append_assoc]
    exact ⟨_, us, factors_reads_cons f hf hread, hlen⟩

/-- Brackets may turn out to be the argument of a function, and a numeral may be longer. -/
theorem Factor.readsPast {b : Bool} : (f : Factor V b) → ∀ (rest : List (Key V)) (d : Nat),
    ReadsPast (factor (.call .low)) (f.keys.reverse ++ rest) rest d
  | .bracketed p, rest, d => by
    -- a function in front takes the brackets as its argument, which only leaves fewer keys
    by_cases hrest : ∃ g us, rest = .function g :: us
    · obtain ⟨g, us, rfl⟩ := hrest
      have hread := factor_reads_apply (g := g) (p.reads d (.opening (.function g :: us)))
      have hkeys : (Factor.apply g p).keys.reverse ++ us =
          (Factor.bracketed p).keys.reverse ++ .function g :: us := by
        simp [Factor.keys]
      rw [hkeys] at hread
      exact ⟨_, us, hread, Nat.le_succ _⟩
    · exact .of_reads (factor_reads_bracketed (p.reads d (.opening rest))
        fun g us h => hrest ⟨g, us, h⟩)
  | .apply _ p, _, d => .of_reads (factor_reads_apply (p.reads d (.opening _)))
  | .constant c, rest, d => .of_reads (factor_reads_constant c rest d)
  | .numeral _ h, rest, d => factor_readsPast_numeral h rest d

end

end Keypad.Grammar
