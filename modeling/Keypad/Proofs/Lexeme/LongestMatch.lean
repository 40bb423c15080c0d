import Keypad.Proofs.Lexeme.Words
import Keypad.Session
import Mathlib.Data.List.Induction

/-! # The first match is the longest

Lexemes are scanned by trying alternatives in a fixed order. The order is such that no word comes
before a longer one that it starts, and numbers in scientific notation are tried before their first
digit alone. So the alternative that is found first is the longest word at that place, and scanning
reads a text as reading by longest words does. -/

namespace Keypad.Lexeme

variable {V : Type} {answer : V} {cs w rest mantissa sign digits : List Char} {c : Char}

/-! ## The order of alternatives -/

/-- No word starts a later one. -/
theorem words_pairwise : words.Pairwise fun u v => u.toList.isPrefixOf v.toList = false := by
  decide

/-- No word is found exactly if the text begins with none of the list. -/
theorem word?_eq_none_iff {ws : List String} :
    word? ws cs = none ↔ ∀ v ∈ ws, ¬ v.toList <+: cs := by
  rw [word?, List.findSome?_eq_none_iff]
  refine forall₂_congr fun v _ => ?_
  rw [Option.map_eq_none_iff, Option.eq_none_iff_forall_ne_some]
  constructor
  · rintro h ⟨rest, rfl⟩
    exact h rest (after?_eq_some_iff.2 rfl)
  · rintro h rest hrest
    exact h ⟨rest, (after?_eq_some_iff.1 hrest).symm⟩

/-- Among words of which none starts a later one, the first that a text starts with is the longest. -/
theorem word?_longest {ws : List String}
    (hws : ws.Pairwise fun u v => u.toList.isPrefixOf v.toList = false)
    (h : word? ws cs = some (w, rest)) {v : String} (hv : v ∈ ws) (hbegin : v.toList <+: cs) :
    v.toList.length ≤ w.length := by
  -- the words are tried in order, and none begins with an earlier one
  induction ws with
  | nil => cases hv
  | cons u ws ih =>
    obtain ⟨hu, hws⟩ := List.pairwise_cons.1 hws
    rw [word?, List.findSome?_cons] at h
    cases hafter : after? u.toList cs with
    | some r =>
      rw [hafter] at h
      obtain ⟨rfl, rfl⟩ := Prod.mk.inj (Option.some.inj h)
      rcases List.mem_cons.1 hv with rfl | hv
      · exact Nat.le_refl _
      · -- if it were longer, it would start with this word
        by_contra hlt
        have hstart := List.prefix_of_prefix_length_le ⟨r, (after?_eq_some_iff.1 hafter).symm⟩
          hbegin (by omega)
        have hfalse := hu v hv
        rw [List.isPrefixOf_iff_prefix.2 hstart] at hfalse
        cases hfalse
    | none =>
      rw [hafter] at h
      rcases List.mem_cons.1 hv with rfl | hv
      · obtain ⟨r, hr⟩ := hbegin
        rw [after?_eq_some_iff.2 hr.symm] at hafter
        cases hafter
      · exact ih hws h hv

/-- A scan tries the words of fixed spelling, numbers in scientific notation and keys of one
character, in this order. -/
theorem scan?_eq (cs : List Char) :
    scan? cs = (((word? words cs).map fun (w, rest) => (ofWord w, rest)).or (scientific? cs)).or
      (single? cs) := by
  -- the groups of words are told apart by the lexemes made of them, which `ofWord` does as well
  have hanswer : (word? answerWords cs).map (fun (_, rest) => (Lexeme.answer, rest)) =
      (word? answerWords cs).map fun (w, rest) => (ofWord w, rest) := by
    refine Option.map_congr fun p hw => ?_
    obtain ⟨w, rest⟩ := p
    dsimp only
    rw [ofWord, if_pos (word?_append hw).2]
  have hkey {ws : List String} (hws : ∀ s ∈ ws, s ∉ answerWords) :
      (word? ws cs).map (fun (w, rest) => (Lexeme.key w, rest)) =
        (word? ws cs).map fun (w, rest) => (ofWord w, rest) := by
    refine Option.map_congr fun p hw => ?_
    obtain ⟨w, rest⟩ := p
    dsimp only
    rw [ofWord, if_neg (hws _ (word?_append hw).2)]
  have happend (us vs : List String) : word? (us ++ vs) cs = (word? us cs).or (word? vs cs) :=
    List.findSome?_append
  rw [scan?, hanswer, hkey (by decide), hkey (by decide), hkey (by decide), words, happend, happend,
    happend, Option.map_or, Option.map_or, Option.map_or]

/-! ## The lexeme found first -/

/-- A number in scientific notation at the beginning of a text is scanned, maybe with further digits. -/
theorem IsLiteral.scientific?_of_prefix (h : IsLiteral mantissa sign digits)
    (hbegin : mantissa ++ 'E' :: (sign ++ digits) <+: cs) :
    ∃ l rest, scientific? cs = some (l, rest) ∧
      (mantissa ++ 'E' :: (sign ++ digits)).length + rest.length ≤ cs.length := by
  obtain ⟨r, rfl⟩ := hbegin
  have hscan := h.scientific?_eq r
  rw [← List.append_assoc sign digits r, ← List.cons_append, ← List.append_assoc] at hscan
  refine ⟨_, _, hscan, ?_⟩
  have hle := (List.dropWhile_suffix Char.isDigit (l := r)).length_le
  exact Nat.le_trans (Nat.add_le_add_left hle _) (Nat.le_of_eq List.length_append.symm)

/-- No word of fixed spelling starts like a number. -/
theorem not_isMantissa_of_mem_words (hw : String.ofList (c :: w) ∈ words) : isMantissa c = false := by
  have hhead : ∀ s ∈ words, s.toList.head?.any isMantissa = false := by decide
  have h := hhead _ hw
  rwa [String.toList_ofList] at h

/-- **A lexeme is the longest word** at its place, and it has the keys that this stands for. -/
theorem longestWord?_of_scan? (answer : V) {l : Lexeme} (h : scan? cs = some (l, rest)) :
    ∃ w ks, cs = w ++ rest ∧ w ≠ [] ∧ l.keys answer = .ok ks ∧
      longestWord? answer cs = some (w, ks) := by
  have hshorter := scan?_length_lt h
  -- it is enough that words at the beginning of the text leave no less than the scan does
  have hlongest {w : List Char} {ks : List (Key V)} (hcs : cs = w ++ rest)
      (hkeys : wordKeys? answer w = some ks) (hlex : l.keys answer = .ok ks)
      (hmax : ∀ w' ks', w' <+: cs → wordKeys? answer w' = some ks' → w'.length ≤ w.length) :
      ∃ w ks, cs = w ++ rest ∧ w ≠ [] ∧ l.keys answer = .ok ks ∧
        longestWord? answer cs = some (w, ks) := by
    have hne : w ≠ [] := by
      rintro rfl
      rw [hcs, List.nil_append] at hshorter
      exact Nat.lt_irrefl _ hshorter
    refine ⟨w, ks, hcs, hne, hlex, ?_⟩
    rw [hcs] at hmax ⊢
    refine longestWord?_eq_some hne hkeys fun w' hw' hlt => ?_
    refine Option.eq_none_iff_forall_ne_some.2 fun ks' hks' => ?_
    have := hmax w' ks' hw' hks'
    omega
  rw [scan?_eq, Option.or_eq_some_iff, Option.or_eq_some_iff, Option.or_eq_none_iff,
    Option.map_eq_none_iff] at h
  rcases h with (h | ⟨hnone, h⟩) | ⟨⟨hnone, hsci⟩, h⟩
  · -- a word of fixed spelling
    obtain ⟨⟨w, r⟩, hw, heq⟩ := Option.map_eq_some_iff.1 h
    obtain ⟨rfl, rfl⟩ := Prod.mk.inj heq
    obtain ⟨hcs, hmem⟩ := word?_append hw
    obtain ⟨ks, hkeys, hlex⟩ := wordKeys?_ofWord answer hmem
    refine hlongest hcs hkeys hlex fun w' ks' hbegin hks' => ?_
    have hpos : 0 < w.length := by
      rw [hcs, List.length_append] at hshorter
      omega
    rcases wordKeys?_cases hks' with hmem' | ⟨c, -, rfl⟩ | ⟨m, s, d, rfl, hlit⟩
    · have hlen := word?_longest words_pairwise hw hmem' (by rwa [String.toList_ofList])
      rwa [String.toList_ofList] at hlen
    · exact hpos
    · -- a number begins with a figure, and no word of fixed spelling does
      obtain ⟨c, m, rfl⟩ := List.exists_cons_of_ne_nil hlit.mantissa_ne
      obtain ⟨c', w, rfl⟩ := List.exists_cons_of_ne_nil (List.length_pos_iff.1 hpos)
      rw [hcs] at hbegin
      obtain rfl := (List.cons_prefix_cons.1 hbegin).1
      have hmantissa := hlit.mantissa_mem c List.mem_cons_self
      rw [not_isMantissa_of_mem_words hmem] at hmantissa
      cases hmantissa
  · -- a number in scientific notation
    obtain ⟨m, s, d, hlit, rfl, hcs⟩ := exists_isLiteral h
    obtain ⟨ks, hkeys, hlex⟩ := hlit.wordKeys?_eq answer
    have hcs' : cs = (m ++ 'E' :: (s ++ d)) ++ rest := by
      rw [hcs, List.append_assoc, List.cons_append, List.append_assoc]
    refine hlongest hcs' hkeys hlex fun w' ks' hbegin hks' => ?_
    have hlen := congrArg List.length hcs'
    rw [List.length_append] at hlen
    rcases wordKeys?_cases hks' with hmem' | ⟨c, -, rfl⟩ | ⟨m', s', d', rfl, hlit'⟩
    · exact absurd (by rwa [String.toList_ofList]) (word?_eq_none_iff.1 hnone _ hmem')
    · rw [List.length_singleton, List.length_append, List.length_cons]
      omega
    · -- every number at the beginning is one that the scan goes at least as far as
      obtain ⟨l', rest', hsci', hle⟩ := hlit'.scientific?_of_prefix hbegin
      rw [h] at hsci'
      obtain ⟨-, rfl⟩ := Prod.mk.inj (Option.some.inj hsci')
      omega
  · -- a key of one character
    cases cs with
    | nil => cases h
    | cons c cs =>
      rw [single?] at h
      split at h
      · next hc =>
        obtain ⟨rfl, rfl⟩ := Prod.mk.inj (Option.some.inj h)
        obtain ⟨ks, hkeys, hlex⟩ := wordKeys?_single answer hc
        refine hlongest (w := [c]) rfl hkeys hlex fun w' ks' hbegin hks' => ?_
        rcases wordKeys?_cases hks' with hmem' | ⟨c', -, rfl⟩ | ⟨m', s', d', rfl, hlit'⟩
        · exact absurd (by rwa [String.toList_ofList]) (word?_eq_none_iff.1 hnone _ hmem')
        · exact Nat.le_refl _
        · obtain ⟨l', rest', hsci', -⟩ := hlit'.scientific?_of_prefix hbegin
          rw [hsci] at hsci'
          cases hsci'
      · cases h

/-- Where no lexeme is found, no word starts. -/
theorem longestWord?_of_scan?_eq_none (answer : V) (h : scan? cs = none) :
    longestWord? answer cs = none := by
  rw [scan?_eq, Option.or_eq_none_iff, Option.or_eq_none_iff, Option.map_eq_none_iff] at h
  obtain ⟨⟨hnone, hsci⟩, hsingle⟩ := h
  refine longestWord?_eq_none fun w hbegin _ => ?_
  refine Option.eq_none_iff_forall_ne_some.2 fun ks hks => ?_
  rcases wordKeys?_cases hks with hmem | ⟨c, hc, rfl⟩ | ⟨m, s, d, rfl, hlit⟩
  · exact absurd (by rwa [String.toList_ofList]) (word?_eq_none_iff.1 hnone _ hmem)
  · obtain ⟨r, rfl⟩ := hbegin
    rw [List.singleton_append, single?, if_pos hc] at hsingle
    cases hsingle
  · obtain ⟨l, rest, hsome, -⟩ := hlit.scientific?_of_prefix hbegin
    rw [hsci] at hsome
    cases hsome

/-! ## Whole texts -/

/-- Going through a text counts the characters after its last line feed. -/
theorem foldl_advance (cs : List Char) :
    cs.foldl advance 1 = (cs.reverse.takeWhile (· != '\n')).length + 1 := by
  induction cs using List.reverseRecOn with
  | nil => rfl
  | append_singleton cs c ih =>
    have hreverse : (cs ++ [c]).reverse = c :: cs.reverse := List.reverse_concat
    rw [hreverse, List.foldl_append, List.foldl_cons, List.foldl_nil, advance]
    by_cases hc : c = '\n'
    · rw [if_pos hc, hc]
      rfl
    · rw [if_neg hc, List.takeWhile_cons, if_pos (bne_iff_ne.2 hc), List.length_cons, ih]

/-- The column at which the rest of a text begins is reached by going through what is before it. -/
theorem column_eq_foldl (front rest : List Char) :
    column (front ++ rest) rest = front.foldl advance 1 := by
  rw [column, List.length_append, Nat.add_sub_cancel, List.take_left, foldl_advance]

/-- What stands behind the blanks is none. -/
theorem isBlank_of_dropWhile (h : cs.dropWhile isBlank = c :: rest) : isBlank c = false := by
  have hhead := List.head?_dropWhile_not isBlank cs
  rw [h] at hhead
  simpa using hhead

/-- **Cutting a text reads it by longest words**: what is cut off stands for keys, and they are all
that is read, or reading stops where nothing more can be cut off. -/
theorem munch_eq_split (answer : V) (cs : List Char) (column : Nat) :
    ∃ front kss, cs = front ++ (split cs).2 ∧ (split cs).1.mapM (keys answer) = .ok kss ∧
      munch answer column cs =
        if (split cs).2 = [] then .ok kss.flatten
        else .error (.unknownAt (front.foldl advance column)) := by
  -- both go over the same lexemes, and the column goes on with the characters
  fun_induction split cs generalizing column with
  | case1 cs hnone =>
    refine ⟨cs.takeWhile isBlank, [], List.takeWhile_append_dropWhile.symm, rfl, ?_⟩
    conv => lhs; rw [← List.takeWhile_append_dropWhile (p := isBlank) (l := cs)]
    rw [munch_blanks fun c => List.mem_takeWhile_imp]
    cases hrest : cs.dropWhile isBlank with
    | nil =>
      rw [munch]
      rfl
    | cons c rest =>
      rw [hrest] at hnone
      exact munch_stop (isBlank_of_dropWhile hrest) (longestWord?_of_scan?_eq_none answer hnone) _
  | case2 cs l rest hsome lexemes left hsplit ih =>
    rw [hsplit] at ih
    dsimp only at ih ⊢
    obtain ⟨w, ks, hw, hne, hkeys, hlongest⟩ := longestWord?_of_scan? answer hsome
    obtain ⟨c, w, rfl⟩ := List.exists_cons_of_ne_nil hne
    have hblank : isBlank c = false := isBlank_of_dropWhile hw
    obtain ⟨front, kss, hfront, hmap, hmunch⟩ :=
      ih ((c :: w).foldl advance ((cs.takeWhile isBlank).foldl advance column))
    refine ⟨cs.takeWhile isBlank ++ ((c :: w) ++ front), ks :: kss, ?_, ?_, ?_⟩
    · rw [List.append_assoc, List.append_assoc, ← hfront, ← hw, List.takeWhile_append_dropWhile]
    · rw [List.mapM_cons, hkeys, hmap]
      rfl
    · conv => lhs; rw [← List.takeWhile_append_dropWhile (p := isBlank) (l := cs)]
      rw [munch_blanks fun c => List.mem_takeWhile_imp, hw]
      rw [hw] at hlongest
      rw [munch_word (List.cons_ne_nil c w) (by simpa using hblank) hlongest, hmunch]
      split
      · rfl
      · rw [List.foldl_append, List.foldl_append]
        rfl

/-- Reading cuts the text and puts the keys together, which is reading by longest words. -/
theorem read_by_words (answer : V) (text : String) :
    Key.read answer text = munch answer 1 text.toList := by
  obtain ⟨front, kss, hfront, hmap, hmunch⟩ := munch_eq_split answer text.toList 1
  rw [hmunch, Key.read]
  split
  · next lexemes hsplit =>
    rw [hsplit] at hmap ⊢
    rw [if_pos rfl, hmap]
    rfl
  · next lexemes rest hrest hsplit =>
    rw [hsplit] at hfront ⊢
    rw [if_neg hrest, hfront, column_eq_foldl]

end Keypad.Lexeme

namespace Keypad

/-- **Display text is read by longest words**, from its first column on. Where no word starts, reading
says so with the column; it never gets to a lexeme that spells no key. -/
theorem Session.read_eq_munch {V : Type} (s : Session V) (text : String) :
    s.read text = Lexeme.munch s.answer 1 text.toList ∧
      ∀ symbol, s.read text ≠ .error (.unknownSymbol symbol) := by
  have hread : s.read text = Lexeme.munch s.answer 1 text.toList :=
    Lexeme.read_by_words s.answer text
  exact ⟨hread, fun symbol => hread ▸ Lexeme.munch_ne_unknownSymbol 1 text.toList symbol⟩

end Keypad
