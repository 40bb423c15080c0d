import Keypad.Grammar
import Keypad.Proofs.Parser.Reading

/-! # The nesting budget of the grammar

How deep the grammar can nest on some keys, whether they are an expression or not. Every binary or
trailing operator opens at most one level, every closing bracket at most three, and a tier at most
as many as there are tiers above it. Along a run this budget never grows: what a parser has read it
has paid for. So where the budget is within the limit, no run fails fatally. -/

namespace Keypad

/-- The **level** of a tier, counted from the loosest one. -/
def Tier.level : Tier → Nat
  | .low => 0
  | .middle => 1
  | .high => 2

/-- The levels of nesting that a key can cost. A bracket opens an expression at every tier. -/
def Key.weight {V : Type} : Key V → Nat
  | .closing => 3
  | .operator _ => 1
  | _ => 0

namespace Grammar

variable {V α β : Type}

/-- The levels of nesting that some keys can cost. -/
def weight : List (Key V) → Nat
  | [] => 0
  | t :: ts => t.weight + weight ts

/-- No keys cost nothing. -/
@[simp] theorem weight_nil : weight ([] : List (Key V)) = 0 := rfl

/-- The first key adds what it costs. -/
@[simp] theorem weight_cons (t : Key V) (ts : List (Key V)) :
    weight (t :: ts) = t.weight + weight ts := rfl

/-- Costs of key sequences add up. -/
@[simp] theorem weight_append (ts us : List (Key V)) :
    weight (ts ++ us) = weight ts + weight us := by
  induction ts with
  | nil => rw [List.nil_append, weight_nil, Nat.zero_add]
  | cons t ts ih => rw [List.cons_append, weight_cons, weight_cons, ih, Nat.add_assoc]

/-- Keys cost the same in either order, so that reading from the last one does not matter. -/
@[simp] theorem weight_reverse (ts : List (Key V)) : weight ts.reverse = weight ts := by
  induction ts with
  | nil => rfl
  | cons t ts ih =>
    rw [List.reverse_cons, weight_append, weight_cons, weight_cons, weight_nil, ih]
    omega

/-- A suffix of some keys costs no more than all of them. -/
theorem weight_le_of_suffix {us ts : List (Key V)} (h : us <:+ ts) : weight us ≤ weight ts := by
  obtain ⟨front, rfl⟩ := h
  rw [weight_append]
  exact Nat.le_add_left _ _

/-- The grammar with nesting up to a given limit. -/
def limited (limit : Nat) : Tier → KeyParser V (Expr V) := rule (.nested limit)

/-! ## Parsers within a budget -/

section Within

/-- What rules do when they are called. -/
abbrev Calls (V : Type) :=
  Tier → Stream (Key V) → Option (Outcome (Stream (Key V)) (Key V) (Expr V))

variable {calls : Calls V} {limit d n : Nat}

/-- The parser `p` is **safe** at depth `d` with `n` levels to spare: on keys whose cost the limit
allows for besides these, it reads some of them at the same depth or refuses them. -/
def Safe (calls : Calls V) (limit d n : Nat) (p : KeyParser V α) : Prop :=
  ∀ ts, d + n + weight ts ≤ limit →
    (∃ a us, p.Reads calls ⟨ts, d⟩ a ⟨us, d⟩ ∧ us <:+ ts) ∨ p.Refuses calls ⟨ts, d⟩

/-- Fewer levels to spare are enough where more are. -/
theorem Safe.mono {m : Nat} {p : KeyParser V α} (h : Safe calls limit d n p) (hnm : n ≤ m) :
    Safe calls limit d m p :=
  fun ts hts => h ts (by omega)

/-- What reads nothing is safe. -/
theorem safe_pure (a : α) : Safe calls limit d n (.pure a) :=
  fun ts _ => .inl ⟨a, ts, rfl, List.suffix_rfl⟩

/-- Reading one key is safe, as it opens no level. -/
theorem safe_satisfy (view : Key V → Option α) (accepts : α → Bool) :
    Safe calls limit d n (.satisfy view accepts) := by
  intro ts _
  by_cases h : ∃ t us a, ts = t :: us ∧ view t = some a ∧ accepts a = true
  · obtain ⟨t, us, a, rfl, hv, ha⟩ := h
    exact .inl ⟨a, us, Parser.reads_satisfy.2 ⟨t, rfl, rfl, hv, ha⟩, List.suffix_cons t us⟩
  · refine .inr (Parser.refuses_satisfy.2 fun t us a hts hv => ?_)
    exact Bool.eq_false_iff.2 fun ha => h ⟨t, us, a, hts, hv, ha⟩

/-- Changing the output opens no level. -/
theorem Safe.map {p : KeyParser V α} (hp : Safe calls limit d n p) (f : α → β) :
    Safe calls limit d n (.map f p) := by
  intro ts hts
  rcases hp ts hts with ⟨a, us, hread, hsuf⟩ | href
  · exact .inl ⟨f a, us, Parser.reads_map.2 ⟨a, hread, rfl⟩, hsuf⟩
  · exact .inr (Parser.refuses_map.2 href)

/-- What is read first leaves keys that cost no more. -/
theorem Safe.bind {p : KeyParser V α} {f : α → KeyParser V β} (hp : Safe calls limit d n p)
    (hf : ∀ a, Safe calls limit d n (f a)) : Safe calls limit d n (.bind p f) := by
  intro ts hts
  rcases hp ts hts with ⟨a, us, hread, hsuf⟩ | href
  · -- what is left costs no more than all of it, so the budget still suffices
    have hus := weight_le_of_suffix hsuf
    rcases hf a us (by omega) with ⟨b, vs, hread', hsuf'⟩ | href
    · exact .inl ⟨b, vs, Parser.reads_bind.2 ⟨a, _, hread, hread'⟩, hsuf'.trans hsuf⟩
    · exact .inr (Parser.refuses_bind.2 (.inr ⟨a, _, hread, href⟩))
  · exact .inr (Parser.refuses_bind.2 (.inl href))

/-- After a key has been read its cost is to spare. -/
theorem Safe.bind_satisfy {view : Key V → Option α} {accepts : α → Bool} {f : α → KeyParser V β}
    {w : Nat} (hw : ∀ t a, view t = some a → w ≤ t.weight)
    (hf : ∀ a, Safe calls limit d (n + w) (f a)) :
    Safe calls limit d n (.bind (.satisfy view accepts) f) := by
  intro ts hts
  have hkey : Safe calls limit d n (.satisfy view accepts) := safe_satisfy view accepts
  -- the cost of the key that is read is to spare for what follows
  rcases hkey ts hts with ⟨a, us, hread, hsuf⟩ | href
  · obtain ⟨t, rfl, -, hv, -⟩ := Parser.reads_satisfy.1 hread
    have hcost := hw t a hv
    rw [weight_cons] at hts
    dsimp only at hts
    rcases hf a us (by omega) with ⟨b, vs, hread', hsuf'⟩ | href
    · exact .inl ⟨b, vs, Parser.reads_bind.2 ⟨a, _, hread, hread'⟩, hsuf'.trans hsuf⟩
    · exact .inr (Parser.refuses_bind.2 (.inr ⟨a, _, hread, href⟩))
  · exact .inr (Parser.refuses_bind.2 (.inl href))

/-- Both alternatives start on the same keys. -/
theorem Safe.orElse {p q : KeyParser V α} (hp : Safe calls limit d n p)
    (hq : Safe calls limit d n q) : Safe calls limit d n (p.orElse q) := by
  intro ts hts
  rcases hp ts hts with ⟨a, us, hread, hsuf⟩ | href
  · exact .inl ⟨a, us, Parser.reads_orElse.2 (.inl hread), hsuf⟩
  · rcases hq ts hts with ⟨a, us, hread, hsuf⟩ | href'
    · exact .inl ⟨a, us, Parser.reads_orElse.2 (.inr ⟨href, hread⟩), hsuf⟩
    · exact .inr (Parser.refuses_orElse.2 ⟨href, href'⟩)

/-- A repetition that may be empty refuses nothing. -/
theorem Safe.reads_many {p : KeyParser V α} (hp : Safe calls limit d n p) (ts : List (Key V))
    (hts : d + n + weight ts ≤ limit) :
    ∃ as us, (Parser.many p true).Reads calls ⟨ts, d⟩ as ⟨us, d⟩ ∧ us <:+ ts := by
  rcases hp ts hts with ⟨a, us, hread, hsuf⟩ | href
  · by_cases hlt : us.length < ts.length
    · have hus := weight_le_of_suffix hsuf
      obtain ⟨as, vs, hmany, hsuf'⟩ := Safe.reads_many hp us (by omega)
      exact ⟨a :: as, vs, Parser.reads_many_cons hread hlt hmany, hsuf'.trans hsuf⟩
    · exact ⟨[a], us, Parser.reads_many_last hread hlt, hsuf⟩
  · exact ⟨[], ts, Parser.reads_many_nil href, List.suffix_rfl⟩
termination_by ts.length
decreasing_by assumption

/-- Each repetition starts on keys that cost no more. -/
theorem Safe.many {p : KeyParser V α} (hp : Safe calls limit d n p) (allowEmpty : Bool) :
    Safe calls limit d n (.many p allowEmpty) := by
  intro ts hts
  rcases hp ts hts with ⟨a, us, hread, hsuf⟩ | href
  · by_cases hlt : us.length < ts.length
    · have hus := weight_le_of_suffix hsuf
      obtain ⟨as, vs, hmany, hsuf'⟩ := hp.reads_many us (by omega)
      exact .inl ⟨a :: as, vs, Parser.reads_many_cons hread hlt hmany, hsuf'.trans hsuf⟩
    · exact .inl ⟨[a], us, Parser.reads_many_last hread hlt, hsuf⟩
  · cases allowEmpty with
    | true => exact .inl ⟨[], ts, Parser.reads_many_nil href, List.suffix_rfl⟩
    | false => exact .inr (Parser.refuses_many href)

/-! ## The rules are within their budget -/

variable {reenter : Tier → KeyParser V (Expr V)}

/-- **A factor is safe with nothing to spare**: its bracket pays for the three levels that are
opened inside. -/
theorem safe_factor {inner : KeyParser V (Expr V)} (h : Safe calls limit d 3 inner) :
    Safe calls limit d 0 (factor inner) := by
  refine .orElse (.orElse ?_ ?_) (.map (safe_satisfy _ _) _)
  · refine .bind_satisfy (w := 3) (fun k a hk => ?_) fun _ => .bind h fun arg => ?_
    · cases k with
      | closing => exact Nat.le_refl 3
      | _ => cases hk
    · exact .bind (safe_satisfy _ _) fun _ => .orElse (.map (safe_satisfy _ _) _) (safe_pure arg)
  · exact .map (.many (safe_satisfy _ _) false) _

/-- An operand of a tier opens as many levels as there are tighter tiers. -/
theorem safe_operand (h : ∀ t : Tier, Safe calls limit d (3 - t.level) (reenter t)) (t : Tier) :
    Safe calls limit d (2 - t.level) (operand reenter t) := by
  cases t with
  | low => exact h .middle
  | middle => exact h .high
  | high => exact .map (.many (safe_factor (h .low)) false) _

/-- What may stand before an operand opens a level only behind a binary operator, whose key pays for
it. -/
theorem safe_before (h : ∀ t : Tier, Safe calls limit d (3 - t.level) (reenter t)) (t : Tier)
    (rhs : Expr V) : Safe calls limit d (2 - t.level) (before reenter t rhs) := by
  refine .orElse (.orElse ?_ (.map (safe_satisfy _ _) _)) (safe_pure rhs)
  refine .bind_satisfy (w := 1) (fun k op hk => ?_) fun op => .map (.mono (h t) (by omega)) _
  cases k with
  | operator o => exact Nat.le_refl 1
  | _ => cases hk

/-- If expressions inside others are safe one level deeper, so is the expression. -/
theorem safe_rule (h : ∀ t : Tier, Safe calls limit d (3 - t.level) (reenter t)) (t : Tier) :
    Safe calls limit d (2 - t.level) (rule reenter t) := by
  refine .orElse (.bind (safe_operand h t) (safe_before h t)) ?_
  refine .bind_satisfy (w := 1) (fun k op hk => ?_) fun op => .map (.mono (h t) (by omega)) _
  cases k with
  | operator o => exact Nat.le_refl 1
  | _ => cases hk

/-! ## Limited nesting within the budget -/

/-- A call through `nested` is safe where the rules are safe one level deeper. -/
theorem safe_nested (h : d < limit → ∀ t : Tier, Safe calls limit (d + 1) (2 - t.level) (.call t))
    (t : Tier) : Safe calls limit d (3 - t.level) (.nested limit t) := by
  intro ts hts
  -- the budget counts the level that the call opens, so there is one left to open
  have hlevel : t.level ≤ 2 := by cases t <;> decide
  have hlt : d < limit := by omega
  rcases h hlt t ts (by omega) with ⟨e, us, hread, hsuf⟩ | ⟨e, he, hfatal⟩
  · refine .inl ⟨e, us, ?_, hsuf⟩
    exact Parser.reads_nested (Nat.not_le.2 hlt) hread
  · exact .inr (Parser.refuses_nested (Nat.not_le.2 hlt) ⟨e, he, hfatal⟩)

end Within

/-- **Within the budget** every call of the limited grammar is safe, as soon as rules may call each
other as deep as the limit leaves room for. -/
theorem safe_limited (limit d fuel : Nat) (hfuel : limit < d + fuel) (t : Tier) :
    Safe (V := V) (Parser.runRule (limited limit) fuel) limit d (2 - t.level) (.call t) := by
  -- one level deeper there is one call less, and one level less up to the limit
  induction fuel generalizing d t with
  | zero =>
    intro ts hts
    omega
  | succ fuel ih =>
    have hnested := safe_nested fun _ => ih (d + 1) (by omega)
    exact safe_rule hnested t

end Grammar

end Keypad
