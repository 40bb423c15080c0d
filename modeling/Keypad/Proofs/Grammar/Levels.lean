import Keypad.Proofs.Grammar.Longest
import Keypad.Proofs.Parser.Levels

/-! # The levels of a phrase

How many levels of nesting the capped grammar opens on a phrase. The left operand of an operation
and the phrase in brackets are one level deeper than the whole, and so is a phrase of a tighter tier
that is the operand of a looser one. Before a leading operator the grammar first looks for a left
operand and opens the levels of all tighter tiers for it, in vain. The capped grammar reads a phrase
if the limit leaves room for its levels, and gives up otherwise. -/

namespace Keypad.Grammar

variable {V : Type}

/-! ## Counting -/

mutual

/-- The **levels** that the grammar opens on a phrase. -/
def Phrase.levels : {t : Tier} → Phrase V t → Nat
  | _, .operand ω => ω.levels
  | _, .binary lhs _ _ rhs => max rhs.levels (lhs.levels + 1)
  | t, .leading _ _ rhs => max rhs.levels (2 - t.level + 1)
  | _, .trailing lhs _ _ => lhs.levels + 1

/-- The levels that the grammar opens on an operand. -/
def Operand.levels {t : Tier} : Operand V t → Nat
  | .middle p => p.levels + 1
  | .high p => p.levels + 1
  | .factors fs => fs.levels

/-- The levels that the grammar opens on some factors. -/
def Factors.levels {b : Bool} : Factors V b → Nat
  | .single f => f.levels
  | .snoc fs f _ => max f.levels fs.levels

/-- The levels that the grammar opens on a factor. -/
def Factor.levels {b : Bool} : Factor V b → Nat
  | .bracketed p => p.levels + 1
  | .apply _ p => p.levels + 1
  | .constant _ => 0
  | .numeral _ _ => 0

end

/-! ## The capped grammar obeys its rules -/

/-- The results of the capped grammar, as rules to be called. -/
def cappedCalls : Calls V := fun t input => some (expression t input)

/-- Runs with some fuel agree with the results of the capped grammar, as far as they go. -/
theorem extends_cappedCalls (fuel : Nat) :
    Parser.Extends (Parser.runRule (capped (V := V)) fuel) cappedCalls := by
  intro t input o ho
  rw [cappedCalls, Parser.runRule_unique ho (runRule_expression t input)]

/-- A tier of the capped grammar does what its rule does. -/
theorem run_capped (t : Tier) (input : Stream (Key V)) :
    Parser.run cappedCalls (capped t) input = some (expression t input) :=
  Parser.run_extends (extends_cappedCalls _) (capped t) input _ (runRule_expression t input)

section Steps

variable {α : Type} {t : Tier} {d m n : Nat} {ts us vs : List (Key V)} {lhs rhs : Expr V}

/-- The parser `p` of the capped grammar reads with `n` levels what is before `us`. -/
abbrev Takes (d n : Nat) (p : KeyParser V α) (ts : List (Key V)) (a : α) (us : List (Key V)) :
    Prop :=
  p.ReadsWith cappedCalls maxNesting d n ts a us

/-- The parser `p` of the capped grammar refuses some keys with `n` levels. -/
abbrev Declines (d n : Nat) (p : KeyParser V α) (ts : List (Key V)) : Prop :=
  p.RefusesWith cappedCalls maxNesting d n ts

/-- A rule takes what the parser that it names takes. -/
theorem takes_call_iff :
    Takes d n (.call t) ts rhs us ↔ Takes d n (capped t) ts rhs us := by
  simp only [Takes, Parser.ReadsWith, Parser.Reads, Parser.GivesUp, run_capped]
  rfl

/-- A rule declines what the parser that it names declines. -/
theorem declines_call_iff :
    Declines d n (.call t : KeyParser V (Expr V)) ts ↔ Declines d n (capped t) ts := by
  simp only [Declines, Parser.RefusesWith, Parser.Refuses, Parser.GivesUp, run_capped]
  rfl

/-! ## Where phrases stop -/

/-- Where phrases stop, a tier opens the levels of all tighter ones and then refuses. -/
theorem declines_call {level : Nat} (h : Stops level ts) (hd : d ≤ maxNesting) :
    Declines d (2 - t.level) (.call t : KeyParser V (Expr V)) ts := by
  -- nothing can be read here, so a tier only goes down to the next one for an operand
  have hstep {t : Tier} {d n : Nat} (hd : d ≤ maxNesting)
      (hoperand : Declines d n (operand (.nested maxNesting) t) ts) :
      Declines d n (.call t : KeyParser V (Expr V)) ts := by
    have htrailing : Declines d 0 (trailing t) ts := .of_refuses (refuses_trailing h) hd
    exact declines_call_iff.2 (.levels_eq (.orElse (.bind_left hoperand) (.bind_left htrailing))
      (Nat.max_zero n))
  have hhigh {d : Nat} (hd : d ≤ maxNesting) :
      Declines d 0 (.call .high : KeyParser V (Expr V)) ts := by
    have hfactor : Declines d 0 (factor (.nested maxNesting .low)) ts :=
      .of_refuses (refuses_factor h.noFactor) hd
    exact hstep hd (.map (.many hfactor) _)
  have hmiddle {d : Nat} (hd : d ≤ maxNesting) :
      Declines d 1 (.call .middle : KeyParser V (Expr V)) ts :=
    hstep hd (.nested fun hlt => hhigh hlt)
  cases t with
  | low => exact hstep hd (.nested fun hlt => hmiddle hlt)
  | middle => exact hmiddle hd
  | high => exact hhigh hd

/-! ## One step of a tier -/

/-- An operand alone needs the levels that it needs as an operand. -/
theorem takes_operand (hd : d ≤ maxNesting)
    (h : Takes d n (operand (.nested maxNesting) t) ts rhs us) (hstop : Stops t.level us) :
    Takes d n (.call t) ts rhs us := by
  have hbinary : Declines d 0 (binary t) us := .of_refuses (refuses_binary hstop) hd
  have hleading : Declines d 0 (leading t) us := .of_refuses (refuses_leading hstop) hd
  have hpure : Takes d 0 (.pure rhs : KeyParser V (Expr V)) us rhs us := .of_reads rfl hd
  refine takes_call_iff.2 (.orElse_left (.levels_eq (.bind h ?_) (Nat.max_zero n)))
  exact .orElse_right (.orElse (.bind_left hbinary) (.map hleading _)) hpure

/-- The left operand of a binary operation is one level deeper, the right one is not. -/
theorem takes_binary {op : BinaryOp} (htier : op.tier = t) (hd : d ≤ maxNesting)
    (hrhs : Takes d n (operand (.nested maxNesting) t) ts rhs (.operator op.operator :: us))
    (hlhs : d < maxNesting → Takes (d + 1) m (.call t) us lhs vs) :
    Takes d (max n (m + 1)) (.call t) ts (.binary op lhs rhs) vs := by
  have hop : Takes d 0 (binary t) (.operator op.operator :: us) op us :=
    .of_reads (reads_binary_iff.2 ⟨rfl, htier⟩) hd
  refine takes_call_iff.2 (.orElse_left (.bind hrhs (.orElse_left (.orElse_left ?_))))
  exact .levels_eq (.bind hop (.map (.nested hlhs) _)) (Nat.zero_max _)

/-- Where a leading operator stands, its key is first taken for a binary one. -/
theorem takes_leading {op : PrefixOp} (htier : op.tier = t) (hd : d ≤ maxNesting)
    (hrhs : Takes d n (operand (.nested maxNesting) t) ts rhs (.operator op.operator :: us))
    (hlhs : d < maxNesting → Declines (d + 1) m (.call t : KeyParser V (Expr V)) us) :
    Takes d (max n (m + 1)) (.call t) ts (.leading op rhs) us := by
  obtain ⟨op', hkey, htier'⟩ := op.exists_binary
  have hbinary : Takes d 0 (binary t) (.operator op.operator :: us) op' us :=
    .of_reads (reads_binary_iff.2 ⟨by rw [hkey], htier'.trans htier⟩) hd
  have hleading : Takes d 0 (leading t) (.operator op.operator :: us) op us :=
    .of_reads (reads_leading_iff.2 ⟨rfl, htier⟩) hd
  refine takes_call_iff.2 (.orElse_left (.bind hrhs (.orElse_left ?_)))
  refine .levels_eq
    (.orElse_right (.bind_right hbinary (.map (.nested hlhs) _)) (.map hleading _)) ?_
  rw [Nat.zero_max, Nat.max_zero]

/-- The operand of a trailing operation is one level deeper. -/
theorem takes_trailing {op : PostfixOp} (htier : op.tier = t) (hd : d ≤ maxNesting)
    (hlhs : d < maxNesting → Takes (d + 1) n (.call t) us lhs vs) :
    Takes d (n + 1) (.call t) (.operator op.operator :: us) (.trailing op lhs) vs := by
  have hhigh : t = .high := by
    rw [← htier]
    cases op
    rfl
  subst hhigh
  -- no factor ends with an operator, so the first alternative finds no operand
  have hfactor : Declines d 0 (factor (.nested maxNesting .low)) (.operator op.operator :: us) :=
    .of_refuses (refuses_factor (noFactor_operator op.operator us)) hd
  have hop : Takes d 0 (trailing .high) (.operator op.operator :: us) op us :=
    .of_reads (reads_trailing_iff.2 ⟨rfl, htier⟩) hd
  refine takes_call_iff.2 (.levels_eq (.orElse_right (.bind_left (.map (.many hfactor) _))
    (.bind hop (.map (.nested hlhs) _))) ?_)
  rw [Nat.zero_max, Nat.zero_max]

/-! ## Factors -/

/-- Brackets open one level more than the phrase in them, with a function before them or without. -/
theorem takes_bracketed {e e' : Expr V} (hd : d ≤ maxNesting)
    (hinner : d < maxNesting → Takes (d + 1) n (.call .low) ts e (.opening :: us))
    (hname : Takes d 0 (.orElse (.map (fun f => .apply f e) function) (.pure e)) us e' vs) :
    Takes d (n + 1) (factor (.nested maxNesting .low)) (.closing :: ts) e' vs := by
  have hclosing : Takes d 0 (.item Key.closing?) (.closing :: ts) () ts :=
    .of_reads (reads_closing_iff.2 rfl) hd
  have hopening : Takes d 0 (.item Key.opening?) (.opening :: us) () us :=
    .of_reads (reads_opening_iff.2 rfl) hd
  refine .orElse_left (.orElse_left (.levels_eq
    (.bind hclosing (.bind (.nested hinner) (.bind hopening hname))) ?_))
  rw [Nat.zero_max, Nat.max_zero, Nat.max_zero]

/-- A factor that is read is followed by the factors before it. -/
theorem takes_factors {b : Bool} (f : Factor V b) {es : List (Expr V)} {allowEmpty : Bool}
    (hf : Takes d m (factor (.nested maxNesting .low)) (f.keys.reverse ++ us) f.tree us)
    (hmany : Takes d n (.many (factor (.nested maxNesting .low)) true) us es vs) :
    Takes d (max m n) (.many (factor (.nested maxNesting .low)) allowEmpty)
      (f.keys.reverse ++ us) (f.tree :: es) vs := by
  obtain ⟨ks, k, hkeys, -⟩ := f.keys_eq_append
  refine .many_cons hf ?_ hmany
  rw [hkeys, List.length_append, List.length_reverse, List.length_append, List.length_singleton]
  omega

end Steps

/-! ## Phrases -/

mutual

/-- **A phrase is read with its levels** where it stops. -/
theorem Phrase.takes {t : Tier} : (δ : Phrase V t) → ∀ {rest : List (Key V)} {d : Nat},
    d ≤ maxNesting → Stops t.level rest →
      Takes d δ.levels (.call t) (δ.keys.reverse ++ rest) δ.tree rest
  | .operand ω, _, _, hd, hrest =>
    takes_operand hd (ω.takes hd (hrest.mono (Nat.le_succ _))) hrest
  | .binary lhs op h rhs, rest, d, hd, hrest => by
    -- an operator of the tier itself is loose enough to stop an operand
    have hop : op.tier.level < t.level + 1 := h ▸ Nat.lt_succ_self _
    have hrhs := rhs.takes hd (Stops.operator (lhs.keys.reverse ++ rest) hop)
    rw [Phrase.keys, List.reverse_append, List.reverse_cons, List.append_assoc, List.append_assoc]
    exact takes_binary h hd hrhs fun hlt => lhs.takes hlt hrest
  | .leading op h rhs, rest, d, hd, hrest => by
    obtain ⟨op', hkey, htier⟩ := op.exists_binary
    have hop : op'.tier.level < t.level + 1 := htier ▸ h ▸ Nat.lt_succ_self _
    have hrhs := rhs.takes hd (Stops.operator rest hop)
    rw [hkey] at hrhs
    rw [Phrase.keys, List.reverse_cons, List.append_assoc]
    exact takes_leading h hd hrhs fun hlt => declines_call hrest hlt
  | .trailing lhs op h, rest, d, hd, hrest => by
    rw [Phrase.keys, List.reverse_append]
    exact takes_trailing h hd fun hlt => lhs.takes hlt hrest

/-- **Operands take the levels** counted for them. -/
theorem Operand.takes {t : Tier} : (ω : Operand V t) → ∀ {rest : List (Key V)} {d : Nat},
    d ≤ maxNesting → Stops (t.level + 1) rest →
      Takes d ω.levels (operand (.nested maxNesting) t) (ω.keys.reverse ++ rest) ω.tree rest
  | .middle p, _, _, _, hrest => .nested fun hlt => p.takes hlt hrest
  | .high p, _, _, _, hrest => .nested fun hlt => p.takes hlt hrest
  | .factors fs, _, _, hd, hrest => by
    have h := (fs.takes false hd hrest).map fun es => Expr.group es.reverse
    rw [List.reverse_reverse] at h
    exact h

/-- So do factors. -/
theorem Factors.takes {b : Bool} : (fs : Factors V b) → ∀ {rest : List (Key V)} (allowEmpty : Bool)
    {d : Nat}, d ≤ maxNesting → Stops 3 rest →
      Takes d fs.levels (.many (factor (.nested maxNesting .low)) allowEmpty)
        (fs.keys.reverse ++ rest) fs.trees.reverse rest
  | .single f, rest, allowEmpty, d, hd, hrest => by
    have hf := f.takes hd hrest.ne_function fun _ => hrest.noFactor.2.2
    have hnone : Declines d 0 (factor (.nested maxNesting .low)) rest :=
      .of_refuses (refuses_factor hrest.noFactor) hd
    exact .levels_eq (takes_factors f hf (.many_nil hnone)) (Nat.max_zero _)
  | .snoc fs f h, rest, allowEmpty, d, hd, hrest => by
    obtain ⟨hfunction, hnumeral⟩ := fs.separates rest
    have hf := f.takes hd hfunction fun hb => hnumeral (by rw [hb, Bool.and_true] at h; exact h)
    rw [Factors.keys, List.reverse_append, List.append_assoc, Factors.trees, List.reverse_append]
    exact takes_factors f hf (fs.takes true hd hrest)

/-- So does a factor. A function in front would become part of it, and so would a figure in front of
a numeral. -/
theorem Factor.takes {b : Bool} : (f : Factor V b) → ∀ {rest : List (Key V)} {d : Nat},
    d ≤ maxNesting → (∀ g us, rest ≠ .function g :: us) →
      (b = true → ∀ c us, rest ≠ Numeral.key c :: us) →
        Takes d f.levels (factor (.nested maxNesting .low)) (f.keys.reverse ++ rest) f.tree rest
  | .bracketed p, rest, d, hd, hfunction, _ => by
    -- no function stands in front, so the brackets are a factor of their own
    have hname : Declines d 0 (.map (fun g => Expr.apply g p.tree) function) rest :=
      .map (.of_refuses (refuses_function hfunction) hd) _
    have hpure : Takes d 0 (.pure p.tree : KeyParser V (Expr V)) rest p.tree rest :=
      .of_reads rfl hd
    have hkeys : (Factor.bracketed p).keys.reverse ++ rest =
        .closing :: (p.keys.reverse ++ .opening :: rest) := by
      simp [Factor.keys]
    rw [hkeys]
    exact takes_bracketed hd (fun hlt => p.takes hlt (.opening rest)) (.orElse_right hname hpure)
  | .apply g p, rest, d, hd, _, _ => by
    -- the function in front takes what is in brackets as its argument
    have hname : Takes d 0 function (.function g :: rest) g rest :=
      .of_reads (reads_function_iff.2 rfl) hd
    have hkeys : (Factor.apply g p).keys.reverse ++ rest =
        .closing :: (p.keys.reverse ++ .opening :: .function g :: rest) := by
      simp [Factor.keys]
    rw [hkeys]
    exact takes_bracketed hd (fun hlt => p.takes hlt (.opening (.function g :: rest)))
      (.orElse_left (.map hname _))
  | .constant c, rest, d, hd, _, _ => .of_reads (factor_reads_constant c rest d) hd
  | .numeral _ h, _, d, hd, _, hnumeral => .of_reads (factor_reads_numeral h (hnumeral rfl) d) hd

end

/-! ## Whole sequences of keys -/

/-- The keys of a phrase are parsed as its tree if the limit leaves room for its levels. -/
theorem ofKeys_of_levels_le {δ : Phrase V .low} (h : δ.levels ≤ maxNesting) :
    Expr.ofKeys δ.keys = .ok δ.tree := by
  have hreads := (δ.takes (Nat.zero_le _) .nil).1 (by rwa [Nat.zero_add])
  rw [List.append_nil] at hreads
  rw [ofKeys_eq_ok_iff, parse, reversed, Option.some.inj (Parser.reads_call.1 hreads)]
  rfl

/-- Nesting is exceeded if the limit leaves no room for the levels of a phrase. -/
theorem parse_tooDeep {δ : Phrase V .low} (h : maxNesting < δ.levels) :
    ∃ err, parse δ.keys = .error err ∧ err.kind = .tooDeep := by
  obtain ⟨err, herr, hfatal⟩ := (δ.takes (Nat.zero_le _) .nil).2 (by rwa [Nat.zero_add])
  rw [List.append_nil] at herr
  refine ⟨err, ?_, (FailureKind.isFatal_iff _).1 hfatal⟩
  rw [parse, reversed, Option.some.inj herr]
  rfl

/-- **Keys are parsed exactly if they are a phrase** that the limit leaves room for. -/
theorem ofKeys_eq_ok_iff_levels {keys : List (Key V)} {e : Expr V} :
    Expr.ofKeys keys = .ok e ↔
      ∃ δ : Phrase V .low, δ.keys = keys ∧ δ.tree = e ∧ δ.levels ≤ maxNesting := by
  constructor
  · intro h
    obtain ⟨δ, rfl, rfl⟩ := exists_phrase_of_ofKeys h
    refine ⟨δ, rfl, rfl, Nat.not_lt.1 fun hlt => ?_⟩
    obtain ⟨err, herr, -⟩ := parse_tooDeep hlt
    cases herr.symm.trans (ofKeys_eq_ok_iff.1 h)
  · rintro ⟨δ, rfl, rfl, hle⟩
    exact ofKeys_of_levels_le hle

/-! ## Brackets around a phrase -/

/-- A phrase in so many pairs of brackets. -/
def Phrase.inBrackets (δ : Phrase V .low) : Nat → Phrase V .low
  | 0 => δ
  | k + 1 => .operand ((Factor.bracketed (δ.inBrackets k)).operand .low)

/-- Brackets are typed on both sides of the phrase. -/
theorem Phrase.keys_inBrackets (δ : Phrase V .low) (k : Nat) :
    (δ.inBrackets k).keys = List.replicate k .opening ++ (δ.keys ++ List.replicate k .closing) := by
  induction k with
  | zero => exact (List.append_nil _).symm
  | succ k ih =>
    rw [inBrackets, Phrase.keys, Factor.keys_operand, Factor.keys, ih, List.replicate_succ,
      List.replicate_succ']
    simp only [List.cons_append, List.append_assoc]

/-- A pair of brackets opens a level of every tier. -/
theorem Phrase.levels_inBrackets (δ : Phrase V .low) (k : Nat) :
    (δ.inBrackets k).levels = 3 * k + δ.levels := by
  induction k with
  | zero => exact (Nat.zero_add _).symm
  | succ k ih =>
    have hstep : (δ.inBrackets (k + 1)).levels = (δ.inBrackets k).levels + 3 := rfl
    rw [hstep, ih]
    omega

end Keypad.Grammar
