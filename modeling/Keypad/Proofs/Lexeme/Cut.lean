import Keypad.Proofs.Lexeme.Spells
import Keypad.Proofs.Lexeme.Symbols

/-! # Texts that are cut wholly

What it means that a text is read, without telling how: it is made of lexemes with blanks around
them, each of which is the one that is scanned at its place, and the keys are those of the lexemes
one after the other. Splitting finds these lexemes whenever there are any. -/

namespace Keypad.Lexeme

variable {V : Type} {answer : V} {cs w rest : List Char} {l : Lexeme} {ls : List Lexeme}
  {ks : List (Key V)}

/-- A text is **cut** into lexemes: between them, before them and behind them are blanks only. -/
inductive Cut : List Char → List Lexeme → Prop
  | blanks {bs : List Char} (hbs : ∀ c ∈ bs, isBlank c = true) : Cut bs []
  | lexeme {bs w rest : List Char} {l : Lexeme} {ls : List Lexeme} (hbs : ∀ c ∈ bs, isBlank c = true)
      (hscan : scan? (w ++ rest) = some (l, rest)) (h : Cut rest ls) : Cut (bs ++ (w ++ rest)) (l :: ls)

/-- The empty text is cut into nothing. -/
theorem Cut.nil : Cut [] [] := .blanks (List.forall_mem_nil _)

/-- A lexeme at the front is cut off first. -/
theorem Cut.cons (hscan : scan? (w ++ rest) = some (l, rest)) (h : Cut rest ls) :
    Cut (w ++ rest) (l :: ls) :=
  @lexeme [] w rest l ls (List.forall_mem_nil _) hscan h

/-- A further blank in front changes nothing. -/
theorem Cut.blank {c : Char} (hc : isBlank c = true) (h : Cut cs ls) : Cut (c :: cs) ls := by
  cases h with
  | blanks hbs => exact .blanks (List.forall_mem_cons.2 ⟨hc, hbs⟩)
  | lexeme hbs hscan h => exact .lexeme (List.forall_mem_cons.2 ⟨hc, hbs⟩) hscan h

/-- Splitting cuts a text wholly exactly if it can be cut, and as it can be. -/
theorem split_eq_iff_cut : split cs = (ls, []) ↔ Cut cs ls := by
  constructor
  · intro h
    -- the cut follows the calls of `split`, of which the last one finds blanks only
    fun_induction split cs generalizing ls with
    | case1 cs hnone =>
      obtain ⟨rfl, hdrop⟩ := Prod.mk.inj h
      exact .blanks (List.dropWhile_eq_nil_iff.1 hdrop)
    | case2 cs l rest hsome lexemes left hsplit ih =>
      obtain ⟨rfl, rfl⟩ := Prod.mk.inj h
      obtain ⟨w, hw, -⟩ := scan?_symbols hsome
      rw [← List.takeWhile_append_dropWhile (p := isBlank) (l := cs), hw]
      exact .lexeme (fun c => List.mem_takeWhile_imp) (hw ▸ hsome) (ih hsplit)
  · intro h
    induction h with
    | blanks hbs =>
      have hdrop := List.dropWhile_eq_nil_iff.2 hbs
      rw [split_of_none (by rw [hdrop]; rfl), hdrop]
    | lexeme hbs hscan h ih =>
      have hdrop := (List.dropWhile_append_of_pos hbs).trans (dropWhile_of_scan? hscan)
      rw [split_of_some (by rw [hdrop, hscan]), ih]

/-! ## The keys that are read -/

/-- The keys of some lexemes, one after the other. -/
def keysOf (answer : V) (ls : List Lexeme) : Except ReadError (List (Key V)) :=
  (ls.mapM (keys answer)).map List.flatten

/-- Keys of lexemes are those of the first one and then those of the others. -/
theorem keysOf_cons_eq_ok_iff (hl : l.keys answer = .ok ks) {all : List (Key V)} :
    keysOf answer (l :: ls) = .ok all ↔ ∃ ks', all = ks ++ ks' ∧ keysOf answer ls = .ok ks' := by
  rw [keysOf, keysOf, List.mapM_cons, hl]
  cases ls.mapM (keys answer) with
  | error e =>
    constructor
    · intro h
      cases h
    · rintro ⟨ks', -, h⟩
      cases h
  | ok kss =>
    constructor
    · intro h
      cases h
      exact ⟨_, rfl, rfl⟩
    · rintro ⟨ks', rfl, h⟩
      cases h
      rfl

/-- A text is **read as** the keys of the lexemes that it is cut into. -/
def ReadAs (answer : V) (cs : List Char) (ks : List (Key V)) : Prop :=
  ∃ ls, Cut cs ls ∧ keysOf answer ls = .ok ks

/-- **Reading is cutting**: a text is read as the keys of the lexemes that it is cut into. -/
theorem read_eq_ok_iff {text : String} :
    Key.read answer text = .ok ks ↔ ReadAs answer text.toList ks := by
  rw [Key.read]
  constructor
  · intro h
    split at h
    · next ls hsplit => exact ⟨ls, split_eq_iff_cut.1 hsplit, h⟩
    · cases h
  · rintro ⟨ls, hcut, hkeys⟩
    rw [split_eq_iff_cut.2 hcut]
    exact hkeys

/-- The keys of the first lexeme are read first. -/
theorem readAs_iff_of_scan? (hscan : scan? cs = some (l, rest)) (hl : l.keys answer = .ok ks)
    {all : List (Key V)} :
    ReadAs answer cs all ↔ ∃ ks', all = ks ++ ks' ∧ ReadAs answer rest ks' := by
  constructor
  · rintro ⟨ls, hcut, hkeys⟩
    have hsplit := (split_of_scan? hscan).symm.trans (split_eq_iff_cut.2 hcut)
    obtain ⟨rfl, hrest⟩ := Prod.mk.inj hsplit
    obtain ⟨ks', rfl, hkeys'⟩ := (keysOf_cons_eq_ok_iff hl).1 hkeys
    exact ⟨ks', rfl, _, split_eq_iff_cut.1 (Prod.ext rfl hrest), hkeys'⟩
  · rintro ⟨ks', rfl, ls, hcut, hkeys⟩
    obtain ⟨w, rfl, -⟩ := scan?_symbols hscan
    exact ⟨l :: ls, hcut.cons hscan, (keysOf_cons_eq_ok_iff hl).2 ⟨ks', rfl, hkeys⟩⟩

end Keypad.Lexeme
