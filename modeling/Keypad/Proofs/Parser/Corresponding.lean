import Keypad.Parser.Cursor
import Keypad.Proofs.Parser.Reading

/-! # Corresponding parsers

Inputs of different kinds, or over different items, may be read in the same way: what is next, how
much is left and how deep one is correspond. Parsers that are built alike on both and treat
corresponding items alike then have corresponding outcomes: outputs, places, and failures with their
items. The correspondence carries over from the parts to every parser built from them, and from there to the
runs of rules. So a cursor is read like the stream that it stands for. -/

namespace Keypad

section Inputs

variable {I I' τ τ' : Type} [Input I τ] [Input I' τ']

/-- A map of inputs that goes with a map of items: reading commutes with it, and what is left and
the depth are kept. -/
structure InputMap (φ : I → I') (g : τ → τ') : Prop where
  next? (s : I) : Input.next? (φ s) = (Input.next? s).map fun (t, rest) => (g t, φ rest)
  remaining (s : I) : Input.remaining (φ s) = Input.remaining s
  depth (s : I) : Input.depth (φ s) = Input.depth s
  atDepth (s : I) (d : Nat) : Input.atDepth (φ s) d = φ (Input.atDepth s d)

/-- Replaces the item that a failure kind shows. -/
def FailureKind.map (g : τ → τ') : FailureKind τ → FailureKind τ'
  | .exhausted => .exhausted
  | .mismatch t => .mismatch (g t)
  | .rejected t => .rejected (g t)
  | .leftover => .leftover
  | .tooDeep => .tooDeep

/-- Replacing the item does not make a failure fatal. -/
@[simp] theorem FailureKind.isFatal_map (g : τ → τ') (k : FailureKind τ) :
    (k.map g).isFatal = k.isFatal := by
  cases k <;> rfl

/-- Replaces the item and the input of a failure. -/
def Failure.map (φ : I → I') (g : τ → τ') (e : Failure I τ) : Failure I' τ' :=
  ⟨e.kind.map g, φ e.rest⟩

/-- Failures compare in the same way. -/
theorem Failure.further_map {φ : I → I'} {g : τ → τ'} (hφ : InputMap φ g)
    (left right : Failure I τ) :
    (left.map φ g).further (right.map φ g) = (left.further right).map φ g := by
  simp only [Failure.further, Failure.map, FailureKind.isFatal_map, hφ.remaining]
  split
  · rfl
  · split <;> rfl

end Inputs

/-- Replaces the items of a stream. -/
def Stream.map {τ τ' : Type} (g : τ → τ') (s : Stream τ) : Stream τ' := ⟨s.items.map g, s.depth⟩

/-- Replacing the items of a stream goes with replacing the items that are read. -/
theorem Stream.inputMap_map {τ τ' : Type} (g : τ → τ') : InputMap (Stream.map g) g where
  next? s := by
    obtain ⟨items, d⟩ := s
    cases items <;> rfl
  remaining _ := List.length_map _
  depth _ := rfl
  atDepth _ _ := rfl

/-- **A cursor is read like the stream that it stands for.** -/
theorem Cursor.inputMap_stream {τ : Type} : InputMap (Cursor.stream (τ := τ)) id where
  next? c := by
    show Stream.next? ⟨c.items.drop c.position, c.depth⟩ = (Cursor.next? c).map _
    unfold Cursor.next?
    split
    · next t ht =>
      obtain ⟨hlt, rfl⟩ := List.getElem?_eq_some_iff.1 ht
      rw [List.drop_eq_getElem_cons hlt]
      rfl
    · next hnone =>
      rw [List.drop_eq_nil_of_le (List.getElem?_eq_none_iff.1 hnone)]
      rfl
  remaining _ := List.length_drop
  depth _ := rfl
  atDepth _ _ := rfl

namespace Parser

variable {I I' τ τ' ρ ρ' ω ω' α β α' β' : Type} [Input I τ] [Input I' τ']

/-- Replaces the output, the input and the item of an outcome. -/
def mapOutcome (φ : I → I') (g : τ → τ') (h : α → α') : Outcome I τ α → Outcome I' τ' α'
  | .ok (a, rest) => .ok (h a, φ rest)
  | .error e => .error (e.map φ g)

section Corresponds

variable {rule : ρ → I → Option (Outcome I τ ω)} {rule' : ρ' → I' → Option (Outcome I' τ' ω')}
  {φ : I → I'} {g : τ → τ'} {h : α → α'} {k : β → β'}

/-- The parser `p'` **corresponds** to `p` if its outcomes on corresponding inputs do. -/
def Corresponds (rule : ρ → I → Option (Outcome I τ ω))
    (rule' : ρ' → I' → Option (Outcome I' τ' ω')) (φ : I → I') (g : τ → τ') (h : α → α')
    (p : Parser I τ ρ ω α) (p' : Parser I' τ' ρ' ω' α') : Prop :=
  ∀ s, run rule' p' (φ s) = (run rule p s).map (mapOutcome φ g h)

/-- What reads nothing corresponds if its outputs do. -/
theorem corresponds_pure (a : α) : Corresponds rule rule' φ g h (.pure a) (.pure (h a)) :=
  fun _ => rfl

/-- Reading an item corresponds if the views of corresponding items do and are accepted alike. -/
theorem corresponds_satisfy (hφ : InputMap φ g) {view : τ → Option α} {view' : τ' → Option α'}
    {accepts : α → Bool} {accepts' : α' → Bool} (hview : ∀ t, view' (g t) = (view t).map h)
    (haccepts : ∀ a, accepts' (h a) = accepts a) :
    Corresponds rule rule' φ g h (.satisfy view accepts) (.satisfy view' accepts') := by
  intro s
  simp only [run, take, hφ.next?, Option.map_some]
  -- the same item comes next, and it is seen and accepted alike
  cases Input.next? s with
  | none => rfl
  | some result =>
    obtain ⟨t, rest⟩ := result
    simp only [Option.map_some, hview]
    cases view t with
    | none => rfl
    | some a =>
      simp only [Option.map_some, haccepts]
      split <;> rfl

/-- Changed outputs correspond if they are changed alike. -/
theorem Corresponds.map {p : Parser I τ ρ ω α} {p' : Parser I' τ' ρ' ω' α'}
    (hp : Corresponds rule rule' φ g h p p') {f : α → β} {f' : α' → β'}
    (hf : ∀ a, f' (h a) = k (f a)) : Corresponds rule rule' φ g k (.map f p) (.map f' p') := by
  intro s
  rw [run, run, hp s]
  cases run rule p s with
  | none => rfl
  | some o =>
    cases o with
    | error e => rfl
    | ok result =>
      obtain ⟨a, rest⟩ := result
      simp [mapOutcome, Except.map, hf]

/-- What is chosen by corresponding outputs has to correspond. -/
theorem Corresponds.bind {p : Parser I τ ρ ω α} {p' : Parser I' τ' ρ' ω' α'}
    {f : α → Parser I τ ρ ω β} {f' : α' → Parser I' τ' ρ' ω' β'}
    (hp : Corresponds rule rule' φ g h p p')
    (hf : ∀ a, Corresponds rule rule' φ g k (f a) (f' (h a))) :
    Corresponds rule rule' φ g k (.bind p f) (.bind p' f') := by
  intro s
  rw [run, run, hp s]
  cases run rule p s with
  | none => rfl
  | some o =>
    cases o with
    | error e => rfl
    | ok result =>
      obtain ⟨a, rest⟩ := result
      exact hf a rest

/-- Both alternations choose the same alternative, and report corresponding failures. -/
theorem Corresponds.orElse (hφ : InputMap φ g) {p q : Parser I τ ρ ω α}
    {p' q' : Parser I' τ' ρ' ω' α'} (hp : Corresponds rule rule' φ g h p p')
    (hq : Corresponds rule rule' φ g h q q') :
    Corresponds rule rule' φ g h (p.orElse q) (p'.orElse q') := by
  intro s
  rw [run_orElse, run_orElse, hp s]
  cases run rule p s with
  | none => rfl
  | some o =>
    cases o with
    | ok result => rfl
    | error left =>
      -- the first alternatives fail alike, so both runs go on to the second one or neither does
      simp only [Option.map_some, mapOutcome, Failure.map, FailureKind.isFatal_map]
      by_cases hfatal : left.kind.isFatal = true
      · rw [if_pos hfatal, if_pos hfatal]
        rfl
      · rw [if_neg hfatal, if_neg hfatal, hq s]
        cases run rule q s with
        | none => rfl
        | some o' =>
          cases o' with
          | ok result => rfl
          | error right =>
            exact congrArg (fun e => some (Except.error e)) (Failure.further_map hφ left right)

/-- Repetitions correspond: both make progress, and end, at the same steps. The induction is on what
remains. -/
theorem Corresponds.many (hφ : InputMap φ g) {p : Parser I τ ρ ω α}
    {p' : Parser I' τ' ρ' ω' α'} (hp : Corresponds rule rule' φ g h p p') (allowEmpty : Bool) :
    Corresponds rule rule' φ g (List.map h) (.many p allowEmpty) (.many p' allowEmpty) := by
  intro s
  rw [run, run, iterate, iterate, hp s]
  cases run rule p s with
  | none => rfl
  | some o =>
    cases o with
    | error e =>
      simp only [Option.map_some, mapOutcome, Failure.map, FailureKind.isFatal_map]
      split <;> rfl
    | ok result =>
      obtain ⟨a, rest⟩ := result
      simp only [Option.map_some, mapOutcome, hφ.remaining]
      by_cases hlt : Input.remaining rest < Input.remaining s
      · rw [if_pos hlt, if_pos hlt]
        -- both repetitions go on, on corresponding inputs
        have hrest := Corresponds.many hφ hp true rest
        rw [run, run] at hrest
        rw [hrest]
        cases iterate (run rule p) true rest with
        | none => rfl
        | some o' => cases o' <;> rfl
      · rw [if_neg hlt, if_neg hlt]
        rfl
termination_by s => Input.remaining s

/-- Nested rules correspond, because the depths and the limit are the same. -/
theorem corresponds_nested (hφ : InputMap φ g) {limit : Nat} {r : ρ} {r' : ρ'} {h : ω → ω'}
    (hr : ∀ s, rule' r' (φ s) = (rule r s).map (mapOutcome φ g h)) :
    Corresponds rule rule' φ g h (.nested limit r) (.nested limit r') := by
  intro s
  rw [run, run, hφ.depth, hφ.atDepth, hr]
  split
  · rfl
  · cases rule r (Input.atDepth s (Input.depth s + 1)) with
    | none => rfl
    | some o =>
      cases o with
      | error e => rfl
      | ok result => simp [mapOutcome, Except.map, hφ.atDepth]

end Corresponds

/-! ## Whole runs -/

section Rules

variable {φ : I → I'} {g : τ → τ'} {h : ω → ω'} {k : α → α'}

/-- Rules **correspond** if each of them does as soon as the rules that it calls do. -/
def RulesCorrespond (φ : I → I') (g : τ → τ') (h : ω → ω') (rules : ρ → Parser I τ ρ ω ω)
    (rules' : ρ → Parser I' τ' ρ ω' ω') : Prop :=
  ∀ rule rule', (∀ r s, rule' r (φ s) = (rule r s).map (mapOutcome φ g h)) →
    ∀ r, Corresponds rule rule' φ g h (rules r) (rules' r)

/-- **Runs of rules correspond**, however deep the rules call each other. -/
theorem RulesCorrespond.runRule {rules : ρ → Parser I τ ρ ω ω} {rules' : ρ → Parser I' τ' ρ ω' ω'}
    (hrules : RulesCorrespond φ g h rules rules') (fuel : Nat) (r : ρ) (s : I) :
    runRule rules' fuel r (φ s) = (runRule rules fuel r s).map (mapOutcome φ g h) := by
  induction fuel generalizing r s with
  | zero => rfl
  | succ fuel ih => exact hrules _ _ ih r s

end Rules

end Parser

/-- **A run on a cursor is the run on the stream that it stands for**: rules that correspond to each
other on both have the same outputs, and what they leave of the cursor stands for what they leave of
the stream. -/
theorem Cursor.runRule_stream {τ ρ ω : Type} {rules : ρ → Parser (Cursor τ) τ ρ ω ω}
    {rules' : ρ → Parser (Stream τ) τ ρ ω ω}
    (hrules : Parser.RulesCorrespond Cursor.stream id id rules rules') (fuel : Nat) (r : ρ)
    (c : Cursor τ) :
    Parser.runRule rules' fuel r c.stream =
      (Parser.runRule rules fuel r c).map (Parser.mapOutcome Cursor.stream id id) :=
  hrules.runRule fuel r c

end Keypad
