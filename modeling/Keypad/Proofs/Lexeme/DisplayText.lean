import Keypad.Proofs.Expr.Description
import Keypad.Proofs.Lexeme.Neighbours

/-! # Reading display text

Keys that were read are typable, and the display text of typable keys is read as these keys again.
Display texts stand next to each other with nothing in between, and some of them start others; what
keeps them apart is that none begins with an `h` and none has an `E`, so that no function is taken
for a longer one and no digits for a number in scientific notation. -/

namespace Keypad

open Grammar Lexeme

variable {V : Type} {answer : V} {rest : List Char}

/-! ## Typable keys -/

namespace Grammar

/-- No keys are typable. -/
theorem typable_nil (answer : V) : Typable answer [] := ⟨nofun, nofun⟩

/-- Typing one sequence after the other is typing both. -/
theorem typable_append {ks ks' : List (Key V)} :
    Typable answer (ks ++ ks') ↔ Typable answer ks ∧ Typable answer ks' := by
  simp only [Typable, List.mem_append, or_imp, forall_and]
  tauto

/-- Keys are typed one by one. -/
theorem typable_cons {k : Key V} {ks : List (Key V)} :
    Typable answer (k :: ks) ↔ Typable answer [k] ∧ Typable answer ks := by
  rw [← List.singleton_append, typable_append]

/-- What a single key needs to be typable. -/
theorem typable_singleton {k : Key V} :
    Typable answer [k] ↔
      (∀ d, k = .digit d → d ≤ 9) ∧ ∀ v, k = .constant (.answer v) → v = answer := by
  simp only [Typable, List.mem_singleton, eq_comm]

/-- Decimal digits are typable. -/
theorem typable_digit {d : Nat} (hd : d ≤ 9) : Typable answer [.digit d] := by
  simpa [Typable] using hd

/-- The point is typable. -/
theorem typable_point : Typable answer [.point] := by simp [Typable]

/-- The answer key is typable if it carries the answer. -/
theorem typable_answer (answer : V) : Typable answer [.constant (.answer answer)] := by
  simp [Typable]

/-- Operators are typable. -/
theorem typable_operator (o : Operator) : Typable answer [.operator o] := by simp [Typable]

/-- Functions are typable. -/
theorem typable_function (f : Function) : Typable answer [.function f] := by simp [Typable]

end Grammar

namespace Lexeme

/-- A text spells typable keys only. -/
theorem typable_of_ofText? (answer : V) {s : String} {k : Key V} (h : Key.ofText? s = some k) :
    Typable answer [k] := by
  obtain ⟨l, l', hl, -⟩ := List.lookup_eq_some_iff.1 h
  have hmem : (s, k) ∈ Key.spellings := hl ▸ List.mem_append_right _ List.mem_cons_self
  simp only [Key.spellings, List.mem_append, List.mem_map, List.mem_range, Prod.mk.injEq] at hmem
  rcases hmem with ((hfixed | ⟨d, hd, -, rfl⟩) | ⟨o, -, -, rfl⟩) | ⟨f, -, -, rfl⟩
  · -- the first of the spellings are those of neither digits nor answers
    simp only [List.mem_cons, Prod.mk.injEq, List.not_mem_nil, or_false] at hfixed
    refine typable_singleton.2 ⟨?_, ?_⟩ <;> rintro x rfl <;> simp at hfixed
  · exact typable_digit (Nat.le_of_lt_succ hd)
  · exact typable_operator o
  · exact typable_function f

/-- The figures of a number are typable, because they come from characters. -/
theorem typable_figures (answer : V) (cs : List Char) : Typable answer (cs.map figureKey) := by
  induction cs with
  | nil => exact typable_nil answer
  | cons c cs ih =>
    refine typable_cons.2 ⟨?_, ih⟩
    rw [figureKey]
    split
    · next hc => exact typable_digit (digitOf_le hc)
    · exact typable_point

/-- A word stands for typable keys. -/
theorem typable_of_wordKeys? {w : List Char} {ks : List (Key V)}
    (h : wordKeys? answer w = some ks) : Typable answer ks := by
  rw [wordKeys?] at h
  split at h
  · obtain rfl := Option.some.inj h
    exact typable_answer answer
  · split at h
    · next k hk =>
      obtain rfl := Option.some.inj h
      exact typable_of_ofText? answer hk
    · -- a number in scientific notation has the keys of its product with a power of ten
      obtain ⟨p, -, rfl⟩ := Option.map_eq_some_iff.1 h
      obtain ⟨m, s, d⟩ := p
      have hsign : Typable answer
          (if s = ['-'] ∨ s = ['−'] then [.operator .minus] else []) := by
        split
        · exact typable_operator .minus
        · exact typable_nil answer
      simp only [literalKeys, typable_append]
      refine ⟨⟨⟨⟨?_, typable_figures answer m⟩, ?_⟩, hsign, typable_figures answer d⟩, ?_⟩
      all_goals simp [Typable]

/-- **Keys that were read are typable.** -/
theorem typable_of_munch {column : Nat} {cs : List Char} {ks : List (Key V)}
    (h : munch answer column cs = .ok ks) : Typable answer ks := by
  fun_induction munch answer column cs generalizing ks with
  | case1 =>
    obtain rfl := Except.ok.inj h
    exact typable_nil answer
  | case2 column c cs hblank ih => exact ih h
  | case3 => cases h
  | case4 column c cs hblank w ks' hw ih =>
    -- the word is followed by a shorter text, whose keys are typable
    cases hrest : munch answer (w.foldl advance column) ((c :: cs).drop w.length) with
    | error e =>
      rw [hrest] at h
      cases h
    | ok ks'' =>
      rw [hrest] at h
      obtain rfl := Except.ok.inj h
      exact typable_append.2 ⟨typable_of_wordKeys? (longestWord?_spec hw).1, ih hrest⟩

/-! ## Display texts next to each other -/

/-- A display text is not empty; it does not begin with an `h` and has no `E`. -/
theorem exists_toList_text (k : Key V) :
    ∃ c cs, k.text.toList = c :: cs ∧ c ≠ 'h' ∧ 'E' ∉ c :: cs := by
  -- for a text that is given it is enough to look at its characters
  have hfixed (s : String) (hs : s.toList.head?.any (· != 'h') = true) (hE : 'E' ∉ s.toList) :
      ∃ c cs, s.toList = c :: cs ∧ c ≠ 'h' ∧ 'E' ∉ c :: cs := by
    cases hcs : s.toList with
    | nil =>
      rw [hcs] at hs
      cases hs
    | cons c cs =>
      rw [hcs] at hs hE
      exact ⟨c, cs, rfl, bne_iff_ne.1 hs, hE⟩
  cases k with
  | digit d =>
    show ∃ c cs, (digitText d).toList = c :: cs ∧ _
    rw [digitText]
    split
    · next hd =>
      have hchar := isMantissa_numeralChar (k := some d) fun d' hd' => Option.some.inj hd' ▸ hd
      rw [Expr.toList_repr_digit hd]
      refine ⟨_, [], rfl, ?_, ?_⟩
      · rintro h
        rw [numeralChar, h] at hchar
        cases hchar
      · rw [List.mem_singleton]
        intro h
        rw [numeralChar, ← h] at hchar
        cases hchar
    · exact hfixed "?" rfl (by decide)
  | point => exact hfixed "." rfl (by decide)
  | constant c =>
    cases c with
    | pi => exact hfixed "π" rfl (by decide)
    | e => exact hfixed "e" rfl (by decide)
    | i => exact hfixed "i" rfl (by decide)
    | answer v => exact hfixed "Ans" rfl (by decide)
  | operator o =>
    show ∃ c cs, o.text.toList = c :: cs ∧ _
    cases o <;> exact hfixed _ rfl (by decide)
  | opening => exact hfixed "(" rfl (by decide)
  | closing => exact hfixed ")" rfl (by decide)
  | function f =>
    show ∃ c cs, f.text.toList = c :: cs ∧ _
    cases f <;> exact hfixed _ rfl (by decide)

/-- Without an `E` there is no exponent. -/
theorem noExponent_of_not_mem {cs : List Char} (h : 'E' ∉ cs) : NoExponent cs := by
  intro hhead
  refine h ((List.dropWhile_suffix isMantissa).subset ?_)
  exact List.mem_of_mem_head? hhead

/-- Not before an `h`, the name of a function spells it. -/
theorem spells_function_of_head (f : Function) (hrest : rest.head? ≠ some 'h') :
    Spells answer f.text.toList rest [.function f] := by
  have halone : word? words (f.text.toList ++ []) = some (f.text.toList, []) := by
    cases f <;> rfl
  have hword : ofWord f.text.toList = .key f.text.toList := by cases f <;> rfl
  have hscan := scan?_of_word? (word?_before halone hrest)
  rw [hword] at hscan
  exact spells_of_scan? hscan (by cases f <;> rfl)

/-- **The display text of a typable key spells it** in front of what neither begins with an `h` nor
has an `E`. -/
theorem spells_key {k : Key V} (hk : Typable answer [k]) (hrest : rest.head? ≠ some 'h')
    (hE : 'E' ∉ rest) : Spells answer k.text.toList rest [k] := by
  cases k with
  | digit d =>
    -- a typable digit is a figure, which would only run into a scientific number
    have hd : d ≤ 9 := hk.1 d List.mem_cons_self
    have hdecimal : IsDecimal [some d] := fun d' hd' => by
      obtain rfl := Option.some.inj (List.mem_singleton.1 hd')
      exact hd
    show Spells answer (digitText d).toList rest _
    rw [digitText, if_pos hd, Expr.toList_repr_digit hd]
    exact spells_numeral hdecimal (noExponent_of_not_mem hE)
  | point =>
    have hdecimal : IsDecimal [none] := by
      intro d hd
      cases List.mem_singleton.1 hd
    show Spells answer ".".toList rest _
    exact spells_numeral hdecimal (noExponent_of_not_mem hE)
  | constant c => exact spells_constant c (fun v hv => hk.2 v (hv ▸ List.mem_cons_self)) rest
  | operator o => exact spells_operator o rest
  | opening =>
    show Spells answer "(".toList rest _
    exact spells_opening rest
  | closing =>
    show Spells answer ")".toList rest _
    exact spells_closing rest
  | function f => exact spells_function_of_head f hrest

/-- Display texts next to each other do not begin with an `h` and have no `E`. -/
theorem head?_toList_textOf (ks : List (Key V)) :
    (Key.textOf ks).toList.head? ≠ some 'h' ∧ 'E' ∉ (Key.textOf ks).toList := by
  induction ks with
  | nil => exact ⟨nofun, nofun⟩
  | cons k ks ih =>
    obtain ⟨c, cs, htext, hc, hE⟩ := exists_toList_text k
    rw [Key.textOf_cons, String.toList_append, htext, List.cons_append, ← List.cons_append,
      List.mem_append]
    exact ⟨fun h => hc (Option.some.inj h), fun h => h.elim hE ih.2⟩

/-- **The display text of typable keys spells them.** -/
theorem spells_textOf {ks : List (Key V)} (hks : Typable answer ks) :
    Spells answer (Key.textOf ks).toList [] ks := by
  induction ks with
  | nil =>
    rw [Key.textOf_nil]
    exact spells_nil []
  | cons k ks ih =>
    obtain ⟨hk, hks⟩ := typable_cons.1 hks
    obtain ⟨hhead, hE⟩ := head?_toList_textOf ks
    rw [Key.textOf_cons, String.toList_append]
    have hkey : Spells answer k.text.toList ((Key.textOf ks).toList ++ []) [k] := by
      rw [List.append_nil]
      exact spells_key hk hhead hE
    exact hkey.append (ih hks)

end Lexeme

/-- **Display text is read back.** The display text of typable keys is read as these keys. All keys
that are read are typable, so that a text and the display text of its keys are read as the same keys
and have the same value and the same effect on the session. -/
theorem Session.read_textOf [Arithmetic V] (s : Session V) :
    (∀ keys, Typable s.answer keys → s.read (Key.textOf keys) = .ok keys) ∧
      ∀ text keys, s.read text = .ok keys →
        Typable s.answer keys ∧ s.read (Key.textOf keys) = .ok keys ∧
          s.eval (Key.textOf keys) = s.eval text := by
  have hread : ∀ keys, Typable s.answer keys → s.read (Key.textOf keys) = .ok keys :=
    fun keys hkeys => (spells_textOf hkeys).read
  refine ⟨hread, fun text keys h => ?_⟩
  have hkeys : Typable s.answer keys :=
    typable_of_munch ((read_by_words s.answer text).symm.trans h)
  have hback := hread keys hkeys
  refine ⟨hkeys, hback, ?_⟩
  have hvalue : s.value (Key.textOf keys) = s.value text := by
    rw [Session.value, Session.value, hback, h]
  rw [Session.eval, Session.eval, hvalue]

end Keypad
