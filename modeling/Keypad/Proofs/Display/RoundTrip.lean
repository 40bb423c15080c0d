import Keypad.Proofs.Display.Places
import Keypad.Proofs.Display.Reading
import Keypad.Proofs.Lexeme.Symbols

/-! # The round trip of displayed values

What becomes of a displayed value that is typed in again. If both parts are finite, it has a value,
and what its keys denote in exact arithmetic is the number shown. If a part is infinite or not a
number, its text has a character that is no symbol, and the text is refused. -/

namespace Keypad

open Grammar Lexeme

namespace Display

/-! ## Finite parts -/

/-- A text that reads as a phrase is evaluated. -/
theorem ReadsAsPhrase.eval {s : Session Value} {text : String} {z : Complex Rat}
    (h : ReadsAsPhrase s.answer 20 text.toList z) :
    ∃ keys e w, s.read text = .ok keys ∧ Expr.ofKeys keys = .ok e ∧ e.exact = .ok (some z) ∧
      s.eval text = (.ok w, s.setAnswer w) := by
  obtain ⟨p, ⟨hexact, w, hw⟩, hweight, hspells⟩ := h
  have hread : s.read text = .ok p.keys := (hspells [] endsNumber_nil).read
  -- a displayed value has few brackets, so it stays far below the limit of nesting
  have hbudget : weight p.keys + 2 ≤ maxNesting :=
    Nat.le_trans (Nat.add_le_add_right hweight 2) (by decide)
  have hparse := ofKeys_of_weight_le p hbudget
  have hvalue : s.value text = .ok w := by
    rw [Session.value, hread]
    dsimp only
    rw [calculate, hparse]
    exact congrArg (Except.mapError CalcError.evaluation) hw
  exact ⟨p.keys, p.tree, w, hread, hparse, hexact, Session.eval_of_ok hvalue⟩

/-! ## Infinite and undefined parts -/

/-- A text is **foreign** if some character of it is no symbol. -/
def Foreign (text : String) : Prop := ∃ c ∈ text.toList, isSymbol c = false

/-- A text stays foreign behind another one. -/
theorem Foreign.append_left {text : String} (h : Foreign text) (front : String) :
    Foreign (front ++ text) := by
  obtain ⟨c, hc, hsymbol⟩ := h
  refine ⟨c, ?_, hsymbol⟩
  rw [String.toList_append]
  exact List.mem_append_right _ hc

/-- A text stays foreign in front of another one. -/
theorem Foreign.append_right {text : String} (h : Foreign text) (rest : String) :
    Foreign (text ++ rest) := by
  obtain ⟨c, hc, hsymbol⟩ := h
  refine ⟨c, ?_, hsymbol⟩
  rw [String.toList_append]
  exact List.mem_append_left _ hc

/-- The text of what is not a number is foreign, because of its first letter. -/
theorem foreign_notANumber : Foreign "NaN" := ⟨'N', by decide, by decide⟩

/-- The text of what is infinite is foreign. -/
theorem foreign_infinite : Foreign Magnitude.infinite.text := ⟨'∞', by decide, by decide⟩

/-- A magnitude that is not shown as a number is infinite. -/
theorem Magnitude.eq_infinite {m : Magnitude} (h : m.value? = none) : m = .infinite := by
  cases m with
  | infinite => rfl
  | fixed d => cases h
  | scientific d e => cases h

/-- A part that is not shown as a number is foreign. -/
theorem foreign_part {p : Part} (h : p.value? = none) : Foreign p.text := by
  cases p with
  | notANumber => exact foreign_notANumber
  | nothing => cases h
  | shown negative m =>
    obtain rfl := Magnitude.eq_infinite (Option.map_eq_none_iff.1 h)
    exact foreign_infinite.append_left _

/-- A real part that is not shown as a number makes the joined text foreign. -/
theorem foreign_join_left {re : Part} (h : re.value? = none) (im : Part) :
    Foreign (join re im) := by
  have hre := foreign_part h
  -- whatever the imaginary part is, the real one is written in front of it
  cases im with
  | notANumber =>
    cases re with
    | notANumber => exact foreign_notANumber
    | nothing => cases h
    | shown negative m => exact hre.append_right "+NaNi"
  | nothing =>
    cases re with
    | notANumber => exact hre
    | nothing => cases h
    | shown negative m => exact hre
  | shown negative m =>
    cases re with
    | notANumber => exact ((hre.append_right _).append_right _).append_right "i"
    | nothing => cases h
    | shown negative' m' => exact ((hre.append_right _).append_right _).append_right "i"

/-- An imaginary part that is not shown as a number makes the joined text foreign. -/
theorem foreign_join_right (re : Part) {im : Part} (h : im.value? = none) :
    Foreign (join re im) := by
  -- whatever the real part is, the imaginary one is written behind it
  cases im with
  | nothing => cases h
  | notANumber =>
    cases re with
    | notANumber => exact foreign_notANumber
    | nothing => exact foreign_notANumber.append_right "i"
    | shown negative m =>
      have hsuffix : Foreign "+NaNi" := (foreign_notANumber.append_left "+").append_right "i"
      exact hsuffix.append_left _
  | shown negative m =>
    obtain rfl := Magnitude.eq_infinite (Option.map_eq_none_iff.1 h)
    have hcoefficient : Foreign Magnitude.infinite.coefficient := foreign_infinite
    cases re with
    | notANumber => exact (hcoefficient.append_left _).append_right "i"
    | nothing => exact (hcoefficient.append_left _).append_right "i"
    | shown negative' m' => exact (hcoefficient.append_left _).append_right "i"

/-- A foreign text is refused, and the session stays as it was. -/
theorem Foreign.eval {text : String} (h : Foreign text) (s : Session Value) :
    ∃ column, s.eval text = (.error (.reading (.unknownAt column)), s) := by
  obtain ⟨c, hc, hsymbol⟩ := h
  obtain ⟨column, hread⟩ := read_of_not_isSymbol s.answer hc hsymbol
  have hvalue : s.value text = .error (.reading (.unknownAt column)) := by
    rw [Session.value, Session.read, hread]
  exact ⟨column, Session.eval_of_error hvalue⟩

end Display

/-! ## Values -/

/-- **Displayed values can be typed in again.** Every value has a display text, which joins its parts
as they are classified. If both parts are finite, the text has a value, and its keys are parsed to an
expression that denotes in exact arithmetic the number that is shown. If a part is infinite or not a
number, the text is refused, and the session stays as it was. -/
theorem Session.eval_display (s : Session Value) (v : Value) :
    ∃ re im, Display.classify {} Double.log10 v.re = .ok re ∧
      Display.classify {} Double.log10 v.im = .ok im ∧
      v.textWith {} = .ok v.display ∧ v.display = Display.join re im ∧
      (v.re.isFinite = true → v.im.isFinite = true →
        ∃ p q, re.value? = some p ∧ im.value? = some q ∧
          ∃ keys e w, s.read v.display = .ok keys ∧ Expr.ofKeys keys = .ok e ∧
            e.exact = .ok (some ⟨p, q⟩) ∧ s.eval v.display = (.ok w, s.setAnswer w)) ∧
      (v.re.isFinite = false ∨ v.im.isFinite = false →
        ∃ column, s.eval v.display = (.error (.reading (.unknownAt column)), s)) := by
  obtain ⟨re, im, hre, him, htext, hjoin⟩ := Display.exists_display_eq_join v
  refine ⟨re, im, hre, him, htext, hjoin, fun hrefinite himfinite => ?_, fun hinfinite => ?_⟩
  · -- finite parts are shown as numbers, and their text is read as the phrase that joins them
    obtain ⟨p, hp⟩ := Display.exists_value?_classify hrefinite hre
    obtain ⟨q, hq⟩ := Display.exists_value?_classify himfinite him
    rw [hjoin]
    exact ⟨p, q, hp, hq, (Display.readsAsPhrase_join hp hq).eval⟩
  · -- a part that is not finite brings a character that is no symbol
    rw [hjoin]
    rcases hinfinite with hreinfinite | himinfinite
    · have hnone := Display.value?_eq_none_of_classify hreinfinite hre
      exact (Display.foreign_join_left hnone im).eval s
    · have hnone := Display.value?_eq_none_of_classify himinfinite him
      exact (Display.foreign_join_right re hnone).eval s

/-- Parts in scientific notation mean the numbers shown, and a part that is no number is refused. -/
theorem Session.eval_display_scientific :
    (∃ keys e w, (Session.fresh : Session Value).read (Value.display ⟨1e20, -2e-7⟩) = .ok keys ∧
      Expr.ofKeys keys = .ok e ∧ e.exact = .ok (some ⟨10 ^ 20, -2 / 10 ^ 7⟩) ∧
      (Session.fresh : Session Value).eval (Value.display ⟨1e20, -2e-7⟩) =
        (.ok w, Session.fresh.setAnswer w)) ∧
    ∃ column, (Session.fresh : Session Value).eval (Value.display ⟨0.0 / 0.0, 1⟩) =
      (.error (.reading (.unknownAt column)), Session.fresh) := by
  have hnan : (0.0 / 0.0 : Float).isFinite = false := by decide +kernel
  obtain ⟨-, -, -, -, -, -, -, hrefused⟩ := Session.eval_display Session.fresh ⟨0.0 / 0.0, 1⟩
  refine ⟨?_, hrefused (.inl hnan)⟩
  obtain ⟨re, im, hre, him, -, -, hfinite, -⟩ := Session.eval_display Session.fresh ⟨1e20, -2e-7⟩
  obtain ⟨p, q, hp, hq, hread⟩ := hfinite (by decide +kernel) (by decide +kernel)
  have hshownre : (Display.classify {} Double.log10 1e20).map Display.Part.value? =
      .ok (some (10 ^ 20)) := by
    decide +kernel
  have hshownim : (Display.classify {} Double.log10 (-2e-7)).map Display.Part.value? =
      .ok (some (-2 / 10 ^ 7)) := by
    decide +kernel
  rw [hre] at hshownre
  rw [him] at hshownim
  obtain rfl := Option.some.inj ((Except.ok.inj hshownre).symm.trans hp)
  obtain rfl := Option.some.inj ((Except.ok.inj hshownim).symm.trans hq)
  exact hread

end Keypad
