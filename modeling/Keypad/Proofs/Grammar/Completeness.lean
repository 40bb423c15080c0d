import Keypad.Proofs.Grammar.Soundness

/-! # Every phrase is read

The grammar is greedy and never takes back an operand that it has read. Two facts show that nothing
is lost by that. Where the keys before a phrase cannot continue it, exactly the phrase is read. And
where a phrase stands at the end of some keys, whatever is before it, something is read that is at
least as long: its last operand is followed by an operator of its own tier, which cannot continue the
operand, so the greedy choice is right there, and the rest is a shorter phrase. -/

namespace Keypad.Grammar

variable {V : Type}

/-! ## Where phrases stop -/

/-- No factor ends at the front of some keys, read from the last one. -/
def NoFactor (ts : List (Key V)) : Prop :=
  (∀ us, ts ≠ .closing :: us) ∧ (∀ c us, ts ≠ .constant c :: us) ∧ ∀ c us, ts ≠ Numeral.key c :: us

/-- Nothing in front of some keys continues a phrase of a given level: there is no key, an opening
bracket, or a binary operator of a looser tier. -/
inductive Stops (level : Nat) : List (Key V) → Prop
  | nil : Stops level []
  | opening (us : List (Key V)) : Stops level (.opening :: us)
  | operator {op : BinaryOp} (us : List (Key V)) (h : op.tier.level < level) :
      Stops level (.operator op.operator :: us)

/-- What does not continue a phrase does not continue one of a tighter level. -/
theorem Stops.mono {m n : Nat} {ts : List (Key V)} (h : Stops m ts) (hmn : m ≤ n) : Stops n ts := by
  cases h with
  | nil => exact .nil
  | opening us => exact .opening us
  | operator us hop => exact .operator us (Nat.lt_of_lt_of_le hop hmn)

/-- No factor ends with an operator. -/
theorem noFactor_operator (o : Operator) (us : List (Key V)) : NoFactor (.operator o :: us) := by
  refine ⟨nofun, nofun, fun c vs h => ?_⟩
  cases c <;> cases h

/-- Where a phrase stops, no factor ends. -/
theorem Stops.noFactor {level : Nat} {ts : List (Key V)} (h : Stops level ts) : NoFactor ts := by
  cases h with
  | nil => exact ⟨nofun, nofun, nofun⟩
  | operator us hop => exact noFactor_operator _ us
  | opening us =>
    refine ⟨nofun, nofun, fun c vs h => ?_⟩
    cases c <;> cases h

/-- Where a phrase stops, there is no function either. -/
theorem Stops.ne_function {level : Nat} {ts : List (Key V)} (h : Stops level ts) (f : Function)
    (us : List (Key V)) : ts ≠ .function f :: us := by
  cases h <;> exact nofun

/-- Where phrases of a level stop, an operator in front is of a looser tier. -/
theorem Stops.tier_lt {level : Nat} {op : BinaryOp} {us : List (Key V)}
    (h : Stops level (.operator op.operator :: us)) : op.tier.level < level := by
  generalize hts : Key.operator op.operator :: us = ts at h
  cases h with
  | nil => cases hts
  | opening => cases hts
  | operator us' hop =>
    rw [BinaryOp.operator_injective (Key.operator.inj (List.cons.inj hts).1)]
    exact hop

/-! ## Refusing -/

section Refuses

variable {calls : Calls V} {ts : List (Key V)} {d : Nat}

/-- Without a closing bracket nothing in brackets is read. -/
theorem refuses_bracketed {inner : KeyParser V (Expr V)} (h : ∀ us, ts ≠ .closing :: us) :
    (bracketed inner).Refuses calls ⟨ts, d⟩ := by
  refine Parser.refuses_bind.2 (.inl ?_)
  rw [Parser.item, refuses_satisfy_iff fun _ _ => Key.closing?_eq_some_iff]
  exact fun _ us hus => absurd hus (h us)

/-- Without a figure no numeral is read. -/
theorem refuses_numeral (h : ∀ c us, ts ≠ Numeral.key c :: us) : numeral.Refuses calls ⟨ts, d⟩ :=
  Parser.refuses_map.2 (Parser.refuses_many (refuses_numeral_key_iff.2 h))

/-- Without a constant key no constant is read. -/
theorem refuses_constant (h : ∀ c us, ts ≠ .constant c :: us) : constant.Refuses calls ⟨ts, d⟩ := by
  refine Parser.refuses_map.2 ?_
  rw [refuses_satisfy_iff fun _ _ => Key.numeric?_eq_some_iff]
  intro n us hus
  cases n with
  | constant c => exact absurd hus (h c us)
  | _ => rfl

/-- Where no factor ends, each of the three alternatives refuses. -/
theorem refuses_factor {inner : KeyParser V (Expr V)} (h : NoFactor ts) :
    (factor inner).Refuses calls ⟨ts, d⟩ := by
  obtain ⟨hclosing, hconstant, hnumeral⟩ := h
  exact Parser.refuses_orElse.2 ⟨Parser.refuses_orElse.2
    ⟨refuses_bracketed hclosing, refuses_numeral hnumeral⟩, refuses_constant hconstant⟩

/-- Without a function key no function is read. -/
theorem refuses_function (h : ∀ f us, ts ≠ .function f :: us) :
    function.Refuses calls ⟨ts, d⟩ := by
  rw [function, Parser.item, refuses_satisfy_iff fun _ _ => Key.function?_eq_some_iff]
  exact fun f us hus => absurd hus (h f us)

/-- Where a phrase stops, no binary operation of its tier is read. -/
theorem refuses_binary {t : Tier} (h : Stops t.level ts) : (binary t).Refuses calls ⟨ts, d⟩ := by
  rw [binary, refuses_satisfy_iff fun _ _ => Key.binary?_eq_some_iff]
  rintro op us rfl
  refine decide_eq_false fun htier => ?_
  exact absurd h.tier_lt (htier ▸ Nat.lt_irrefl _)

/-- A leading operation has the key of a binary one, so none is read either. -/
theorem refuses_leading {t : Tier} (h : Stops t.level ts) : (leading t).Refuses calls ⟨ts, d⟩ := by
  rw [leading, refuses_satisfy_iff fun _ _ => Key.leading?_eq_some_iff]
  rintro op us rfl
  -- `Stops` speaks of binary operators, and the key of `op` writes one of the same tier
  obtain ⟨op', hop, htier'⟩ := op.exists_binary
  refine decide_eq_false fun htier => ?_
  rw [← hop] at h
  exact absurd h.tier_lt (htier ▸ htier' ▸ Nat.lt_irrefl _)

/-- Where a phrase stops, no trailing operation is read. -/
theorem refuses_trailing {t : Tier} {level : Nat} (h : Stops level ts) :
    (trailing t).Refuses calls ⟨ts, d⟩ := by
  rw [trailing, refuses_satisfy_iff fun _ _ => Key.trailing?_eq_some_iff]
  rintro op us rfl
  generalize hts : Key.operator op.operator :: us = ts at h
  cases h with
  | nil => cases hts
  | opening => cases hts
  | @operator op' us' hop =>
    have hkey := Key.operator.inj (List.cons.inj hts).1
    cases op
    cases op' <;> cases hkey

/-- Where phrases stop, no expression is read. -/
theorem refuses_call {t : Tier} {level : Nat} (h : Stops level ts) :
    (Parser.call t : KeyParser V (Expr V)).Refuses freeCalls ⟨ts, d⟩ := by
  have hstep {t : Tier} (hoperand : (operand .call t).Refuses freeCalls ⟨ts, d⟩) :
      (Parser.call t : KeyParser V (Expr V)).Refuses freeCalls ⟨ts, d⟩ :=
    refuses_call_iff.2 (Parser.refuses_orElse.2 ⟨Parser.refuses_bind.2 (.inl hoperand),
      Parser.refuses_bind.2 (.inl (refuses_trailing h))⟩)
  -- a tier refuses what the next tighter one does, and the tightest one finds no factor
  have hhigh := hstep (t := .high)
    (Parser.refuses_map.2 (Parser.refuses_many (refuses_factor h.noFactor)))
  cases t with
  | low => exact hstep (hstep (t := .middle) hhigh)
  | middle => exact hstep hhigh
  | high => exact hhigh

end Refuses

/-! ## A phrase is read where it stops -/

variable {calls : Calls V}

/-- All digits and points of a numeral are read, up to the first key that is none. -/
theorem digits_reads (n : Numeral) {rest : List (Key V)} (hrest : ∀ c us, rest ≠ Numeral.key c :: us)
    {allowEmpty : Bool} (hn : n = [] → allowEmpty = true) (d : Nat) :
    (Parser.many (.satisfy Key.numeric? Numeric.isNumeral) allowEmpty).Reads calls
      ⟨n.map Numeral.key ++ rest, d⟩ (n.map numericOf) ⟨rest, d⟩ := by
  induction n generalizing allowEmpty with
  | nil =>
    rw [hn rfl]
    exact Parser.reads_many_nil (refuses_numeral_key_iff.2 hrest)
  | cons c n ih =>
    refine Parser.reads_many_cons (reads_numeral_key_iff.2 ⟨c, rfl, rfl⟩) ?_ (ih fun _ => rfl)
    exact Nat.lt_succ_self _

/-- **Numerals are read whole**, up to what is no figure. -/
theorem numeral_reads {n : Numeral} (hn : n ≠ []) {rest : List (Key V)}
    (hrest : ∀ c us, rest ≠ Numeral.key c :: us) (d : Nat) :
    (numeral (V := V)).Reads calls ⟨(Numeral.keys n).reverse ++ rest, d⟩ (numeralTree n)
      ⟨rest, d⟩ := by
  have hrev : n.reverse ≠ [] := fun h => hn (List.reverse_eq_nil_iff.1 h)
  rw [Numeral.keys, ← List.map_reverse, ← numeralOf_map hn]
  refine Parser.reads_map.2 ⟨_, digits_reads n.reverse hrest (fun h => absurd h hrev) d, ?_⟩
  rw [List.map_reverse, List.reverse_reverse]

/-- An opened bracket in front ends what is in the brackets. -/
def ReadsInside (p : Phrase V .low) (rest : List (Key V)) (d : Nat) : Prop :=
  (Parser.call .low : KeyParser V (Expr V)).Reads freeCalls ⟨p.keys.reverse ++ .opening :: rest, d⟩
    p.tree ⟨.opening :: rest, d⟩

/-- Brackets without a function in front are read as what they enclose. -/
theorem factor_reads_bracketed {p : Phrase V .low} {rest : List (Key V)} {d : Nat}
    (hp : ReadsInside p rest d) (hrest : ∀ g us, rest ≠ .function g :: us) :
    (factor (.call .low)).Reads freeCalls ⟨(Factor.bracketed p).keys.reverse ++ rest, d⟩ p.tree
      ⟨rest, d⟩ := by
  have hkeys : (Factor.bracketed p).keys.reverse ++ rest =
      .closing :: (p.keys.reverse ++ .opening :: rest) := by
    simp [Factor.keys]
  have hname : (Parser.map (fun g => Expr.apply g p.tree) function).Refuses freeCalls ⟨rest, d⟩ :=
    Parser.refuses_map.2 (refuses_function hrest)
  rw [hkeys]
  -- keys are read from the back, so the closing bracket comes first
  refine Parser.reads_orElse.2 (.inl (Parser.reads_orElse.2 (.inl ?_)))
  refine Parser.reads_bind.2 ⟨(), ⟨p.keys.reverse ++ .opening :: rest, d⟩, ?_, ?_⟩
  · exact reads_closing_iff.2 rfl
  refine Parser.reads_bind.2 ⟨p.tree, ⟨.opening :: rest, d⟩, hp, ?_⟩
  refine Parser.reads_bind.2 ⟨(), ⟨rest, d⟩, reads_opening_iff.2 rfl, ?_⟩
  exact Parser.reads_orElse.2 (.inr ⟨hname, Parser.reads_pure.2 ⟨rfl, rfl⟩⟩)

/-- Brackets with a function in front are read as its application. -/
theorem factor_reads_apply {g : Function} {p : Phrase V .low} {rest : List (Key V)} {d : Nat}
    (hp : ReadsInside p (.function g :: rest) d) :
    (factor (.call .low)).Reads freeCalls ⟨(Factor.apply g p).keys.reverse ++ rest, d⟩
      (.apply g p.tree) ⟨rest, d⟩ := by
  have hkeys : (Factor.apply g p).keys.reverse ++ rest =
      .closing :: (p.keys.reverse ++ .opening :: .function g :: rest) := by
    simp [Factor.keys]
  rw [hkeys]
  refine Parser.reads_orElse.2 (.inl (Parser.reads_orElse.2 (.inl ?_)))
  refine Parser.reads_bind.2 ⟨(), ⟨p.keys.reverse ++ .opening :: .function g :: rest, d⟩, ?_, ?_⟩
  · exact reads_closing_iff.2 rfl
  refine Parser.reads_bind.2 ⟨p.tree, ⟨.opening :: .function g :: rest, d⟩, hp, ?_⟩
  refine Parser.reads_bind.2 ⟨(), ⟨.function g :: rest, d⟩, reads_opening_iff.2 rfl, ?_⟩
  exact Parser.reads_orElse.2 (.inl (Parser.reads_map.2 ⟨g, reads_function_iff.2 rfl, rfl⟩))

/-- A constant is read as a factor. -/
theorem factor_reads_constant {inner : KeyParser V (Expr V)} (c : Constant V) (rest : List (Key V))
    (d : Nat) :
    (factor inner).Reads calls ⟨.constant c :: rest, d⟩ (.leaf (.constant c)) ⟨rest, d⟩ := by
  have hnumeral : ∀ c' us, Key.constant c :: rest ≠ Numeral.key c' :: us := by
    intro c' us h
    cases c' <;> cases h
  refine Parser.reads_orElse.2 (.inr ⟨Parser.refuses_orElse.2 ⟨?_, ?_⟩, ?_⟩)
  · exact refuses_bracketed nofun
  · exact refuses_numeral hnumeral
  · exact reads_constant_iff.2 ⟨c, rfl, rfl⟩

/-- A numeral is read as a factor, up to what is no figure. -/
theorem factor_reads_numeral {inner : KeyParser V (Expr V)} {n : Numeral} (hn : n ≠ [])
    {rest : List (Key V)} (hrest : ∀ c us, rest ≠ Numeral.key c :: us) (d : Nat) :
    (factor inner).Reads calls ⟨(Numeral.keys n).reverse ++ rest, d⟩ (numeralTree n) ⟨rest, d⟩ := by
  have hclosing : ∀ us, (Numeral.keys n).reverse ++ rest ≠ .closing :: us := by
    intro us h
    rw [Numeral.keys, ← List.map_reverse] at h
    cases hrev : n.reverse with
    | nil => exact hn (List.reverse_eq_nil_iff.1 hrev)
    | cons c m =>
      rw [hrev] at h
      cases c <;> cases h
  exact Parser.reads_orElse.2 (.inl (Parser.reads_orElse.2
    (.inr ⟨refuses_bracketed hclosing, numeral_reads hn hrest d⟩)))

/-- Before some factors that are not followed by a numeral a further factor ends where it should: the
last key of the factors is no function, and no key of a numeral unless the last one is a numeral. -/
theorem Factors.separates {a : Bool} (fs : Factors V a) (rest : List (Key V)) :
    (∀ g us, fs.keys.reverse ++ rest ≠ .function g :: us) ∧
      (a = false → ∀ c us, fs.keys.reverse ++ rest ≠ Numeral.key c :: us) := by
  obtain ⟨us, k, hkeys, hends⟩ := fs.keys_eq_append
  rw [hkeys, List.reverse_append, List.reverse_singleton]
  refine ⟨fun g vs h => ?_, fun ha c vs h => ?_⟩
  · cases hends with
    | closing => cases h
    | constant c' => cases h
    | numeral c' => cases c' <;> cases h
  · cases hends with
    | closing => cases c <;> cases h
    | constant c' => cases c <;> cases h
    | numeral c' => cases ha

/-- The operand of the tightest tier is some factors. -/
theorem operand_high_reads {s rest : Stream (Key V)} {es : List (Expr V)}
    (h : (Parser.many (factor (.call .low)) false).Reads freeCalls s es rest) :
    (operand (V := V) .call .high).Reads freeCalls s (.group es.reverse) rest :=
  Parser.reads_map.2 ⟨es, h, rfl⟩

section Call

variable {t : Tier} {s rest : Stream (Key V)} {us : List (Key V)} {d : Nat} {lhs rhs : Expr V}

/-- An operand alone is read where a phrase of the tier stops. -/
theorem call_reads_operand (h : (operand .call t).Reads freeCalls s rhs ⟨us, d⟩)
    (hstop : Stops t.level us) : (Parser.call t).Reads freeCalls s rhs ⟨us, d⟩ := by
  rw [reads_call_iff]
  refine Parser.reads_orElse.2 (.inl (Parser.reads_bind.2 ⟨rhs, ⟨us, d⟩, h, ?_⟩))
  refine Parser.reads_orElse.2 (.inr ⟨Parser.refuses_orElse.2 ⟨?_, ?_⟩, ?_⟩)
  · exact Parser.refuses_bind.2 (.inl (refuses_binary hstop))
  · exact Parser.refuses_map.2 (refuses_leading hstop)
  · exact Parser.reads_pure.2 ⟨rfl, rfl⟩

/-- A binary operation is read if its operands are, the right one first. -/
theorem call_reads_binary {op : BinaryOp} (htier : op.tier = t)
    (h : (operand .call t).Reads freeCalls s rhs ⟨.operator op.operator :: us, d⟩)
    (hlhs : (Parser.call t).Reads freeCalls ⟨us, d⟩ lhs rest) :
    (Parser.call t).Reads freeCalls s (.binary op lhs rhs) rest := by
  rw [reads_call_iff]
  refine Parser.reads_orElse.2 (.inl (Parser.reads_bind.2 ⟨rhs, _, h, ?_⟩))
  refine Parser.reads_orElse.2 (.inl (Parser.reads_orElse.2 (.inl ?_)))
  refine Parser.reads_bind.2 ⟨op, ⟨us, d⟩, reads_binary_iff.2 ⟨rfl, htier⟩, ?_⟩
  exact Parser.reads_map.2 ⟨lhs, hlhs, rfl⟩

/-- A leading operation is read where nothing stands before it: the binary one with that key has no
left operand then. -/
theorem call_reads_leading {op : PrefixOp} (htier : op.tier = t)
    (h : (operand .call t).Reads freeCalls s rhs ⟨.operator op.operator :: us, d⟩)
    (hlhs : (Parser.call t : KeyParser V (Expr V)).Refuses freeCalls ⟨us, d⟩) :
    (Parser.call t).Reads freeCalls s (.leading op rhs) ⟨us, d⟩ := by
  obtain ⟨op', hkey, htier'⟩ := op.exists_binary
  rw [reads_call_iff]
  refine Parser.reads_orElse.2 (.inl (Parser.reads_bind.2 ⟨rhs, _, h, ?_⟩))
  refine Parser.reads_orElse.2 (.inl (Parser.reads_orElse.2 (.inr ⟨?_, ?_⟩)))
  · -- the key also writes a binary operator, but there is nothing on its left
    refine Parser.refuses_bind.2 (.inr ⟨op', ⟨us, d⟩, ?_, Parser.refuses_map.2 hlhs⟩)
    exact reads_binary_iff.2 ⟨by rw [hkey], htier'.trans htier⟩
  · exact Parser.reads_map.2 ⟨op, reads_leading_iff.2 ⟨rfl, htier⟩, rfl⟩

/-- A trailing operation is read if its operand is. -/
theorem call_reads_trailing {op : PostfixOp} (htier : op.tier = t)
    (hlhs : (Parser.call t).Reads freeCalls ⟨us, d⟩ lhs rest) :
    (Parser.call t).Reads freeCalls ⟨.operator op.operator :: us, d⟩ (.trailing op lhs) rest := by
  have hhigh : t = .high := by
    rw [← htier]
    cases op
    rfl
  subst hhigh
  rw [reads_call_iff]
  -- no factor ends with an operator, so the first alternative finds no operand
  refine Parser.reads_orElse.2 (.inr ⟨Parser.refuses_bind.2 (.inl ?_), ?_⟩)
  · exact Parser.refuses_map.2 (Parser.refuses_many (refuses_factor (noFactor_operator _ _)))
  · refine Parser.reads_bind.2 ⟨op, ⟨us, d⟩, reads_trailing_iff.2 ⟨rfl, htier⟩, ?_⟩
    exact Parser.reads_map.2 ⟨lhs, hlhs, rfl⟩

end Call

/-- A factor that is read is followed by the factors before it. -/
theorem factors_reads_cons {b : Bool} (f : Factor V b) {ts : List (Key V)} {rest : Stream (Key V)}
    {es : List (Expr V)} {allowEmpty : Bool} {d : Nat}
    (h : (factor (.call .low)).Reads freeCalls ⟨f.keys.reverse ++ ts, d⟩ f.tree ⟨ts, d⟩)
    (hmany : (Parser.many (factor (.call .low)) true).Reads freeCalls ⟨ts, d⟩ es rest) :
    (Parser.many (factor (.call .low)) allowEmpty).Reads freeCalls ⟨f.keys.reverse ++ ts, d⟩
      (f.tree :: es) rest := by
  obtain ⟨us, k, hkeys, -⟩ := f.keys_eq_append
  refine Parser.reads_many_cons h ?_ hmany
  show ts.length < (f.keys.reverse ++ ts).length
  rw [hkeys, List.length_append, List.length_reverse, List.length_append, List.length_singleton]
  omega

mutual

/-- **A phrase is read where it stops.** -/
theorem Phrase.reads {t : Tier} : (δ : Phrase V t) → ∀ {rest : List (Key V)} (d : Nat),
    Stops t.level rest →
      (Parser.call t : KeyParser V (Expr V)).Reads freeCalls ⟨δ.keys.reverse ++ rest, d⟩ δ.tree
        ⟨rest, d⟩
  | .operand ω, _, d, hrest => call_reads_operand (ω.reads d (hrest.mono (Nat.le_succ _))) hrest
  | .binary lhs op h rhs, rest, d, hrest => by
    -- an operator of the tier itself is loose enough to stop an operand
    have hop : op.tier.level < t.level + 1 := h ▸ Nat.lt_succ_self _
    have hrhs := rhs.reads d (Stops.operator (lhs.keys.reverse ++ rest) hop)
    rw [Phrase.keys, List.reverse_append, List.reverse_cons, List.append_assoc, List.append_assoc]
    exact call_reads_binary h hrhs (lhs.reads d hrest)
  | .leading op h rhs, rest, d, hrest => by
    obtain ⟨op', hkey, htier⟩ := op.exists_binary
    have hop : op'.tier.level < t.level + 1 := htier ▸ h ▸ Nat.lt_succ_self _
    have hrhs := rhs.reads d (Stops.operator rest hop)
    rw [hkey] at hrhs
    rw [Phrase.keys, List.reverse_cons, List.append_assoc]
    exact call_reads_leading h hrhs (refuses_call hrest)
  | .trailing lhs op h, rest, d, hrest => by
    rw [Phrase.keys, List.reverse_append]
    exact call_reads_trailing h (lhs.reads d hrest)

/-- An operand is read where a phrase of its tier goes on or stops. -/
theorem Operand.reads {t : Tier} : (ω : Operand V t) → ∀ {rest : List (Key V)} (d : Nat),
    Stops (t.level + 1) rest →
      (operand (V := V) .call t).Reads freeCalls ⟨ω.keys.reverse ++ rest, d⟩ ω.tree ⟨rest, d⟩
  | .middle p, _, d, hrest => p.reads d hrest
  | .high p, _, d, hrest => p.reads d hrest
  | .factors fs, _, d, hrest => by
    have h := operand_high_reads (fs.reads false d hrest)
    rw [List.reverse_reverse] at h
    exact h

/-- Factors next to each other are read where no operator or only an operator is before them. -/
theorem Factors.reads {b : Bool} : (fs : Factors V b) → ∀ {rest : List (Key V)} (allowEmpty : Bool)
    (d : Nat), Stops 3 rest →
      (Parser.many (factor (.call .low)) allowEmpty).Reads freeCalls
        ⟨fs.keys.reverse ++ rest, d⟩ fs.trees.reverse ⟨rest, d⟩
  | .single f, _, allowEmpty, d, hrest => by
    have hf := f.reads d hrest.ne_function fun _ => hrest.noFactor.2.2
    exact factors_reads_cons f hf (Parser.reads_many_nil (refuses_factor hrest.noFactor))
  | .snoc fs f h, rest, allowEmpty, d, hrest => by
    obtain ⟨hfunction, hnumeral⟩ := fs.separates rest
    have hf := f.reads d hfunction fun hb => hnumeral (by rw [hb, Bool.and_true] at h; exact h)
    rw [Factors.keys, List.reverse_append, List.append_assoc, Factors.trees, List.reverse_append]
    exact factors_reads_cons f hf (fs.reads true d hrest)

/-- A factor is read where neither a function nor, after a numeral, a key of one is before it. -/
theorem Factor.reads {b : Bool} : (f : Factor V b) → ∀ {rest : List (Key V)} (d : Nat),
    (∀ g us, rest ≠ .function g :: us) → (b = true → ∀ c us, rest ≠ Numeral.key c :: us) →
      (factor (.call .low)).Reads freeCalls ⟨f.keys.reverse ++ rest, d⟩ f.tree ⟨rest, d⟩
  | .bracketed p, _, d, hfunction, _ => factor_reads_bracketed (p.reads d (.opening _)) hfunction
  | .apply _ p, _, d, _, _ => factor_reads_apply (p.reads d (.opening _))
  | .constant c, rest, d, _, _ => factor_reads_constant c rest d
  | .numeral _ h, _, d, _, hnumeral => factor_reads_numeral h (hnumeral rfl) d

end

end Keypad.Grammar
