/-
  WORDS — how the reader of JSON takes a text apart, one token after the other.

  1. **Progress** — every token takes at least one character (`readToken_eq_some`), so the number of
     rounds does not matter once it is larger than the text is long (`tokensIn_eq`), and the tokens
     of a text can be told without it (`words_token`, `words_space`).

  2. **Texts** — between its quotes a text is written character by character, and each character
     reads back by itself, escaped or not (`readText_plainEscape`).

  3. **Whole numbers** — a short number is read up to the character that ends it
     (`readNumber_intText`).
-/
import Cadence.Json.Printer
import Cadence.Proofs.Documents.Decimals

namespace Cadence.Json

open Text

/-! ## Progress -/

theorem readText_length {acc cs rest : List Char} {s : String}
    (h : readText acc cs = some (s, rest)) : rest.length < cs.length := by
  fun_induction readText acc cs with
  | case1 => exact absurd h nofun
  | case2 acc rest' =>
    simp only [Option.some.injEq, Prod.mk.injEq] at h
    rw [← h.2, List.length_cons]
    omega
  | case3 => exact absurd h nofun
  | case4 acc rest₁ c rest₂ hc hlt ih =>
    have := ih h
    simp only [List.length_cons]
    omega
  | case5 => exact absurd h nofun
  | case6 acc e rest' _ c _ ih =>
    have := ih h
    simp only [List.length_cons]
    omega
  | case7 => exact absurd h nofun
  | case8 acc c rest' _ _ _ _ ih =>
    have := ih h
    simp only [List.length_cons]
    omega

/-- A whole part takes at least one character, and it consists of digits. -/
theorem wholePart?_eq_some {cs ds rest : List Char} (h : wholePart? cs = some (ds, rest)) :
    rest.length < cs.length ∧ ds ≠ [] ∧ ds.all isDigit = true := by
  unfold wholePart? at h
  split at h
  · simp only [Option.some.injEq, Prod.mk.injEq] at h
    obtain ⟨rfl, rfl⟩ := h
    exact ⟨Nat.lt_succ_self _, by decide, by decide⟩
  · simp only at h
    split at h
    · exact absurd h nofun
    · rename_i hne
      simp only [Option.some.injEq, Prod.mk.injEq] at h
      obtain ⟨rfl, rfl⟩ := h
      have hpos : cs.takeWhile isDigit ≠ [] := fun ht => hne (by rw [ht]; rfl)
      have hsum := congrArg List.length (List.takeWhile_append_dropWhile (p := isDigit) (l := cs))
      rw [List.length_append] at hsum
      have := List.length_pos_iff.mpr hpos
      exact ⟨by omega, hpos, List.all_takeWhile⟩

theorem fractionPart?_length {cs rest : List Char} {fraction : Option (List Char)}
    (h : fractionPart? cs = some (fraction, rest)) : rest.length ≤ cs.length := by
  unfold fractionPart? at h
  split at h
  · simp only at h
    split at h
    · exact absurd h nofun
    · simp only [Option.some.injEq, Prod.mk.injEq] at h
      rw [← h.2, List.length_cons]
      exact Nat.le_succ_of_le (List.dropWhile_suffix _).length_le
  · simp only [Option.some.injEq, Prod.mk.injEq] at h
    exact Nat.le_of_eq (congrArg List.length h.2.symm)

theorem splitSign_length (cs : List Char) : (splitSign cs).2.length ≤ cs.length := by
  unfold splitSign
  split
  · exact Nat.le_succ _
  · exact Nat.le_succ _
  · exact Nat.le_refl _

theorem exponentPart?_length {cs rest : List Char} {exponent : Option Int}
    (h : exponentPart? cs = some (exponent, rest)) : rest.length ≤ cs.length := by
  unfold exponentPart? at h
  split at h
  · rename_i c more
    split at h
    · simp only at h
      split at h
      · exact absurd h nofun
      · simp only [Option.some.injEq, Prod.mk.injEq] at h
        rw [← h.2, List.length_cons]
        have hdrop := (List.dropWhile_suffix isDigit (l := (splitSign more).2)).length_le
        have := splitSign_length more
        omega
    · simp only [Option.some.injEq, Prod.mk.injEq] at h
      exact Nat.le_of_eq (congrArg List.length h.2.symm)
  · simp only [Option.some.injEq, Prod.mk.injEq] at h
    exact Nat.le_of_eq (congrArg List.length h.2.symm)

/-- A value that is one word: no array and no object, and a whole number only if it is short. -/
def OneWord : Json → Prop
  | .int n => IsShort n
  | .array _ | .object _ => False
  | _ => True

/-- A number takes at least one character, and it is a word as a value is. -/
theorem readNumber_eq_some {cs rest : List Char} {v : Json} (h : readNumber cs = some (v, rest)) :
    rest.length < cs.length ∧ v.OneWord := by
  unfold readNumber at h
  simp only at h
  generalize hn : (if cs.head? = some '-' then cs.tail else cs) = ds at h
  have hds : ds.length ≤ cs.length := by
    rw [← hn]
    split
    · rw [List.length_tail]
      omega
    · exact Nat.le_refl _
  split at h
  · rename_i hp
    simp only [Option.some.injEq, Prod.mk.injEq] at h
    obtain ⟨rfl, rfl⟩ := h
    have hle : 8 ≤ ds.length := (List.isPrefixOf_iff_prefix.mp hp).length_le
    rw [List.length_drop]
    exact ⟨by omega, trivial⟩
  · simp only [Option.bind_eq_some_iff, Option.filter_eq_some_iff] at h
    obtain ⟨⟨whole, r₁⟩, ⟨h₁, hlong⟩, ⟨fraction, r₂⟩, h₂, ⟨exponent, r₃⟩, h₃, h⟩ := h
    obtain ⟨l₁, hne, hdigits⟩ := wholePart?_eq_some h₁
    have l₂ : r₂.length ≤ r₁.length := fractionPart?_length h₂
    have l₃ : r₃.length ≤ r₂.length := exponentPart?_length h₃
    split at h
    · simp only [Option.some.injEq, Prod.mk.injEq] at h
      obtain ⟨rfl, rfl⟩ := h
      rw [Bool.not_eq_true'] at hlong
      exact ⟨by omega, isShort_signed hdigits hne hlong⟩
    · simp only [Option.some.injEq, Prod.mk.injEq] at h
      obtain ⟨rfl, rfl⟩ := h
      exact ⟨by omega, trivial⟩

/-- A literal word is not empty, and it is a value in one word. -/
theorem literals_oneWord {w : List Char} {v : Json} (h : (w, v) ∈ literals) :
    0 < w.length ∧ v.OneWord := by
  simp only [literals, List.mem_cons, Prod.mk.injEq, List.not_mem_nil, or_false] at h
  rcases h with ⟨rfl, rfl⟩ | ⟨rfl, rfl⟩ | ⟨rfl, rfl⟩ | ⟨rfl, rfl⟩
  all_goals exact ⟨by decide, trivial⟩

theorem structural_ne_atom {c : Char} {t : Token} (h : structural.lookup c = some t) (v : Json) :
    t ≠ .atom v := by
  obtain ⟨l₁, l₂, he, -⟩ := List.lookup_eq_some_iff.mp h
  have hmem : (c, t) ∈ structural := he ▸ List.mem_append_right l₁ List.mem_cons_self
  simp only [structural, List.mem_cons, Prod.mk.injEq, List.not_mem_nil, or_false] at hmem
  rcases hmem with ⟨-, rfl⟩ | ⟨-, rfl⟩ | ⟨-, rfl⟩ | ⟨-, rfl⟩ | ⟨-, rfl⟩ | ⟨-, rfl⟩
  all_goals exact nofun

/-- Every token takes at least one character, and the values among the tokens are in one word. -/
theorem readToken_eq_some {cs rest : List Char} {t : Token} (h : readToken cs = some (t, rest)) :
    rest.length < cs.length ∧ ∀ v, t = .atom v → v.OneWord := by
  unfold readToken at h
  split at h
  · exact absurd h nofun
  · rename_i c more
    split at h
    · rename_i hs
      simp only [Option.some.injEq, Prod.mk.injEq] at h
      obtain ⟨rfl, rfl⟩ := h
      exact ⟨Nat.lt_succ_self _, fun v hv => absurd hv (structural_ne_atom hs v)⟩
    · split at h
      · rw [Option.map_eq_some_iff] at h
        obtain ⟨⟨s, r⟩, hr, h⟩ := h
        simp only [Prod.mk.injEq] at h
        obtain ⟨rfl, rfl⟩ := h
        have := readText_length hr
        exact ⟨Nat.lt_succ_of_lt this, nofun⟩
      · split at h
        · rename_i w v hw
          simp only [Option.some.injEq, Prod.mk.injEq] at h
          obtain ⟨rfl, rfl⟩ := h
          have hprefix : w.isPrefixOf (c :: more) = true := by simpa using List.find?_some hw
          have hle := (List.isPrefixOf_iff_prefix.mp hprefix).length_le
          obtain ⟨hpos, hv⟩ := literals_oneWord (List.mem_of_find?_eq_some hw)
          rw [List.length_drop]
          exact ⟨by omega, fun u hu => Token.atom.inj hu ▸ hv⟩
        · rw [Option.map_eq_some_iff] at h
          obtain ⟨⟨v, r⟩, hr, h⟩ := h
          simp only [Prod.mk.injEq] at h
          obtain ⟨rfl, rfl⟩ := h
          obtain ⟨hlt, hv⟩ := readNumber_eq_some hr
          exact ⟨hlt, fun u hu => Token.atom.inj hu ▸ hv⟩

/-- More rounds than there are characters change nothing. -/
theorem tokensIn_eq {n m : Nat} {cs : List Char} (hn : cs.length < n) (hm : cs.length < m) :
    tokensIn n cs = tokensIn m cs := by
  induction n generalizing m cs with
  | zero => omega
  | succ n ih =>
    cases m with
    | zero => omega
    | succ m =>
      have hle := (List.dropWhile_suffix isSpace (l := cs)).length_le
      unfold tokensIn
      split
      · rfl
      · rename_i c rest hcs
        rw [hcs] at hle
        cases hr : readToken (c :: rest) with
        | none => rfl
        | some p =>
          obtain ⟨t, r⟩ := p
          have hlt := (readToken_eq_some hr).1
          show (tokensIn n r).map (t :: ·) = (tokensIn m r).map (t :: ·)
          have hr : tokensIn n r = tokensIn m r := ih (by omega) (by omega)
          rw [hr]

/-- The tokens of some characters. -/
def words (cs : List Char) : Option (List Token) := tokensIn (cs.length + 1) cs

@[simp] theorem words_nil : words [] = some [] := rfl

/-- A space between tokens is skipped. -/
theorem words_space {c : Char} (h : isSpace c = true) (cs : List Char) :
    words (c :: cs) = words cs := by
  have hdrop : (c :: cs).dropWhile isSpace = cs.dropWhile isSpace := List.dropWhile_cons_of_pos h
  have hmore : words cs = tokensIn ((c :: cs).length + 1) cs :=
    tokensIn_eq (Nat.lt_succ_self _) (by simp only [List.length_cons]; omega)
  rw [hmore]
  unfold words tokensIn
  rw [hdrop]

/-- A token is taken off the front. -/
theorem words_token {c : Char} {cs rest : List Char} {t : Token} (hc : isSpace c = false)
    (h : readToken (c :: cs) = some (t, rest)) :
    words (c :: cs) = (words rest).map (t :: ·) := by
  have hlt := (readToken_eq_some h).1
  have hdrop : (c :: cs).dropWhile isSpace = c :: cs :=
    List.dropWhile_cons_of_neg (by rw [hc]; decide)
  have hrest : words rest = tokensIn (c :: cs).length rest :=
    tokensIn_eq (Nat.lt_succ_self _) hlt
  rw [hrest]
  unfold words
  rw [tokensIn, hdrop]
  simp only
  rw [h]
  rfl

/-- A line end with the blanks behind it is skipped. -/
@[simp] theorem words_newline (depth : Nat) (cs : List Char) :
    words (newline depth ++ cs) = words cs := by
  have blanks : ∀ n, words (List.replicate n ' ' ++ cs) = words cs := by
    intro n
    induction n with
    | zero => rfl
    | succ n ih =>
      rw [List.replicate_succ, List.cons_append, words_space rfl, ih]
  unfold newline
  rw [List.cons_append, words_space rfl, blanks]

/-- A structural character is a token. -/
theorem words_structural {c : Char} {t : Token} (hc : isSpace c = false)
    (h : structural.lookup c = some t) (cs : List Char) :
    words (c :: cs) = (words cs).map (t :: ·) :=
  words_token hc (by rw [readToken, h])

/-! ## Texts -/

/-- The code of a control character in four hexadecimal digits reads back. -/
theorem unicodeEscape?_unitEscape {c : Char} (h : c.toNat < 0x20) (more : List Char) :
    unicodeEscape? (hexPadded 4 c.toNat ++ more) = some (c, more) := by
  have hhex : ∀ n < 0x20, ∃ a b, hexPadded 4 n = ['0', '0', a, b] ∧
      ['0', '0', a, b].all isHexDigit = true ∧ hexDigitsValue ['0', '0', a, b] = n := by
    intro n hn
    refine ⟨Nat.digitChar (n / 16), Nat.digitChar (n % 16), ?_⟩
    revert n
    decide
  obtain ⟨a, b, hpad, hall, hvalue⟩ := hhex c.toNat h
  unfold unicodeEscape? fourHex?
  rw [hpad]
  simp only [List.cons_append, List.nil_append]
  rw [if_pos hall, hvalue]
  simp only
  rw [if_pos (Or.inl (by omega)), Char.ofNat_toNat]

theorem readText_unicode {cs more : List Char} {c : Char}
    (h : unicodeEscape? cs = some (c, more)) (acc : List Char) :
    readText acc ('\\' :: 'u' :: cs) = readText (c :: acc) more := by
  rw [readText]
  grind

theorem readText_short {c e : Char} (h : shortEscapes.lookup e = some c) (he : e ≠ 'u')
    (acc more : List Char) : readText acc ('\\' :: e :: more) = readText (c :: acc) more := by
  rw [readText, h]
  exact he

theorem readText_bare {c : Char} (hq : c ≠ '"') (hb : c ≠ '\\') (hc : ¬ c.toNat < 0x20)
    (acc more : List Char) : readText acc (c :: more) = readText (c :: acc) more := by
  rw [readText, if_neg (not_or.mpr ⟨hb, hc⟩)]
  · exact hq
  · exact fun _ h _ => hb h
  · exact fun _ _ h _ => hb h

/-- A character reads back from the way it is written inside quotes. -/
theorem readText_plainEscape (c : Char) (acc more : List Char) :
    readText acc (plainEscape c ++ more) = readText (c :: acc) more := by
  unfold plainEscape
  cases hl : letterEscapes.lookup c with
  | some e =>
    obtain ⟨l₁, l₂, he, -⟩ := List.lookup_eq_some_iff.mp hl
    have hmem : (c, e) ∈ letterEscapes := he ▸ List.mem_append_right l₁ List.mem_cons_self
    have hback : ∀ p ∈ letterEscapes, shortEscapes.lookup p.2 = some p.1 ∧ p.2 ≠ 'u' := by decide
    obtain ⟨hshort, hu⟩ := hback _ hmem
    exact readText_short hshort hu acc more
  | none =>
    have hne : ∀ d e, (d, e) ∈ letterEscapes → c ≠ d := by
      intro d e hmem
      simpa using List.lookup_eq_none_iff.mp hl _ hmem
    have hquote : c ≠ '"' := hne '"' '"' (by decide)
    have hback : c ≠ '\\' := hne '\\' '\\' (by decide)
    by_cases hc : c.toNat < 0x20
    · have hunit : unitEscape c = '\\' :: 'u' :: hexPadded 4 c.toNat := by
        unfold unitEscape
        rw [if_pos (by omega)]
      simp only
      rw [if_pos hc, hunit]
      exact readText_unicode (unicodeEscape?_unitEscape hc more) acc
    · simp only
      rw [if_neg hc]
      exact readText_bare hquote hback hc acc more

/-- A text reads back from between its quotes. -/
theorem readText_quoted (cs acc more : List Char) :
    readText acc (cs.flatMap plainEscape ++ '"' :: more) =
      some (String.ofList (acc.reverse ++ cs), more) := by
  induction cs generalizing acc with
  | nil => rw [List.flatMap_nil, List.nil_append, readText, List.append_nil]
  | cons c rest ih =>
    rw [List.flatMap_cons, List.append_assoc, readText_plainEscape, ih, List.reverse_cons,
      List.append_assoc]
    rfl

/-- A quoted text is one token. -/
theorem words_quoted (s : String) (more : List Char) :
    words (quotedWith plainEscape s ++ more) = (words more).map (.text s :: ·) := by
  have hread : readToken ('"' :: (s.toList.flatMap plainEscape ++ '"' :: more)) =
      some (.text s, more) := by
    have hs : structural.lookup '"' = none := by decide
    rw [readToken, hs]
    simp only
    rw [if_pos trivial, readText_quoted, List.reverse_nil, List.nil_append, String.ofList_toList]
    rfl
  have hsplit : quotedWith plainEscape s ++ more =
      '"' :: (s.toList.flatMap plainEscape ++ '"' :: more) := by
    simp only [quotedWith, List.cons_append, List.append_assoc, List.nil_append]
  rw [hsplit]
  exact words_token rfl hread

/-! ## Whole numbers -/

/-- What may follow a value: the end, a comma, or the line end before a closing bracket. -/
def Delimited (cs : List Char) : Prop := ∀ c ∈ cs.head?, c = ',' ∨ c = '\n'

theorem Delimited.not_digit {cs : List Char} (h : Delimited cs) :
    cs.takeWhile isDigit = [] ∧ cs.dropWhile isDigit = cs := by
  cases cs with
  | nil => exact ⟨rfl, rfl⟩
  | cons c rest =>
    rcases h c rfl with rfl | rfl
    · exact ⟨rfl, rfl⟩
    · exact ⟨rfl, rfl⟩

/-- Neither a fraction nor an exponent follows. -/
theorem Delimited.whole {cs : List Char} (h : Delimited cs) :
    fractionPart? cs = some (none, cs) ∧ exponentPart? cs = some (none, cs) := by
  cases cs with
  | nil => exact ⟨rfl, rfl⟩
  | cons c rest =>
    rcases h c rfl with rfl | rfl
    · exact ⟨rfl, rfl⟩
    · exact ⟨rfl, rfl⟩

/-- The digits of a number are taken as its whole part, up to what follows. -/
theorem wholePart?_toDigits (n : Nat) {more : List Char} (h : Delimited more) :
    wholePart? (Nat.toDigits 10 n ++ more) = some (Nat.toDigits 10 n, more) := by
  obtain ⟨ht, hd⟩ := h.not_digit
  have hall : ∀ c ∈ Nat.toDigits 10 n, isDigit c = true := fun c hc => isDigit_of_mem_toDigits hc
  by_cases hn : n = 0
  · subst hn
    rfl
  · have hzero := head?_toDigits n hn
    cases hds : Nat.toDigits 10 n with
    | nil => exact absurd hds Nat.toDigits_ne_nil
    | cons c ds =>
      rw [hds] at hzero hall
      unfold wholePart?
      split
      · rename_i heq
        rw [List.cons_append, List.cons.injEq] at heq
        exact absurd (congrArg some heq.1) hzero
      · simp only
        rw [List.takeWhile_append_of_pos hall, List.dropWhile_append_of_pos hall, ht, hd,
          List.append_nil]
        rfl

/-- The digits of a number start with a digit. -/
theorem toDigits_eq_cons (n : Nat) : ∃ c ds, Nat.toDigits 10 n = c :: ds ∧ isDigit c = true := by
  cases hds : Nat.toDigits 10 n with
  | nil => exact absurd hds Nat.toDigits_ne_nil
  | cons c ds => exact ⟨c, ds, rfl, isDigit_of_mem_toDigits (hds ▸ List.mem_cons_self)⟩

theorem readNumber_signed {negative : Bool} {n : Nat}
    (hn : tooLong negative (Nat.toDigits 10 n) = false) {more : List Char} (h : Delimited more) :
    readNumber ((if negative then ['-'] else []) ++ (Nat.toDigits 10 n ++ more)) =
      some (.int (Double.signed negative n), more) := by
  obtain ⟨c, ds, hds, hc⟩ := toDigits_eq_cons n
  have hminus : c ≠ '-' := fun he => absurd hc (by rw [he]; decide)
  have hword : "Infinity".toList.isPrefixOf (Nat.toDigits 10 n ++ more) = false := by
    rw [hds]
    cases hp : "Infinity".toList.isPrefixOf (c :: ds ++ more) with
    | false => rfl
    | true =>
      obtain ⟨rest, hrest⟩ := List.isPrefixOf_iff_prefix.mp hp
      have hI : 'I' = c := (List.cons.inj hrest).1
      exact absurd hc (by rw [← hI]; decide)
  have hhead : ((if negative then ['-'] else []) ++ (Nat.toDigits 10 n ++ more)).head? = some '-' ↔
      negative = true := by
    cases negative with
    | false =>
      rw [hds]
      simp [hminus]
    | true => simp
  have htail : (if negative then ((if negative then ['-'] else []) ++
      (Nat.toDigits 10 n ++ more)).tail else (if negative then ['-'] else []) ++
      (Nat.toDigits 10 n ++ more)) = Nat.toDigits 10 n ++ more := by
    cases negative <;> rfl
  unfold readNumber
  simp only [hhead, htail, hword, wholePart?_toDigits n h, Option.filter_some, hn, Bool.not_false,
    Bool.decide_eq_true, if_pos, Option.bind_some, h.whole.1, h.whole.2, digitsValue_toDigits]
  rfl

theorem toList_intText (n : Int) :
    (intText n).toList = (if decide (n < 0) then ['-'] else []) ++ Nat.toDigits 10 n.natAbs := by
  unfold intText
  rw [Nat.repr_eq_ofList_toDigits]
  by_cases hn : n < 0
  · rw [if_pos hn, if_pos (decide_eq_true hn), String.toList_append, String.toList_ofList]
    simp
  · rw [if_neg hn, if_neg (by simpa using hn), String.toList_ofList, List.nil_append]

/-- A short number reads back. -/
theorem readNumber_intText {n : Int} (hn : IsShort n) {more : List Char} (h : Delimited more) :
    readNumber ((intText n).toList ++ more) = some (.int n, more) := by
  have hvalue : Double.signed (decide (n < 0)) n.natAbs = n := by
    unfold Double.signed
    by_cases hneg : n < 0
    · rw [if_pos (decide_eq_true hneg)]
      omega
    · rw [if_neg (by simpa using hneg)]
      omega
  rw [toList_intText, List.append_assoc, readNumber_signed hn h, hvalue]

/-- May a whole number start with this character? -/
def startsNumber (c : Char) : Bool := c = '-' || isDigit c

/-- Where a number may start, the reader looks for a number and for nothing else. -/
theorem readToken_number {c : Char} (hc : startsNumber c = true) (cs : List Char) :
    readToken (c :: cs) = (readNumber (c :: cs)).map fun p => (.atom p.1, p.2) := by
  have apart : ∀ d, startsNumber d = false → c ≠ d := fun d hd hcd => by
    rw [hcd, hd] at hc
    exact absurd hc (by decide)
  have hstructural : structural.lookup c = none := by
    refine List.lookup_eq_none_iff.mpr fun p hp => ?_
    have hd : ∀ p ∈ structural, startsNumber p.1 = false := by decide
    simpa using apart p.1 (hd p hp)
  have hliteral : (literals.find? fun l => l.1.isPrefixOf (c :: cs)) = none := by
    refine List.find?_eq_none.mpr fun l hl hp => ?_
    have hd : ∀ w ∈ literals.map Prod.fst, ∃ d ds, w = d :: ds ∧ startsNumber d = false := by
      intro w hw
      simp only [literals, List.map_cons, List.map_nil, List.mem_cons, List.not_mem_nil,
        or_false] at hw
      rcases hw with rfl | rfl | rfl | rfl
      all_goals exact ⟨_, _, rfl, by decide⟩
    obtain ⟨d, ds, hw, hd⟩ := hd l.1 (List.mem_map_of_mem hl)
    rw [hw] at hp
    obtain ⟨rest, hrest⟩ := List.isPrefixOf_iff_prefix.mp hp
    exact apart d hd (List.cons.inj hrest).1.symm
  rw [readToken, hstructural]
  simp only
  rw [if_neg (apart '"' (by decide)), hliteral]

/-- A short whole number is one token. -/
theorem words_intText {n : Int} (hn : IsShort n) {more : List Char} (h : Delimited more) :
    words ((intText n).toList ++ more) = (words more).map (.atom (.int n) :: ·) := by
  have hread := readNumber_intText hn h
  obtain ⟨c, ds, hds, hc⟩ := toDigits_eq_cons n.natAbs
  have hstart : ∃ c ds, (intText n).toList = c :: ds ∧ startsNumber c = true := by
    rw [toList_intText, hds]
    split
    · exact ⟨_, _, rfl, by decide⟩
    · exact ⟨_, _, rfl, by unfold startsNumber; rw [hc, Bool.or_true]⟩
  obtain ⟨c, ds, hds, hc⟩ := hstart
  have hspace : isSpace c = false := by
    cases hs : isSpace c with
    | false => rfl
    | true =>
      simp only [isSpace, Bool.or_eq_true, decide_eq_true_eq] at hs
      rcases hs with ((rfl | rfl) | rfl) | rfl
      all_goals exact absurd hc (by decide)
  rw [hds, List.cons_append] at hread ⊢
  refine words_token hspace ?_
  rw [readToken_number hc, hread]
  rfl

/-- A literal word is one token. -/
theorem words_literal {w : List Char} {v : Json}
    (h : (w, v) ∈ [("true".toList, Json.bool true), ("false".toList, .bool false),
      ("null".toList, .null)]) (more : List Char) :
    words (w ++ more) = (words more).map (.atom v :: ·) := by
  simp only [List.mem_cons, Prod.mk.injEq, List.not_mem_nil, or_false] at h
  rcases h with ⟨rfl, rfl⟩ | ⟨rfl, rfl⟩ | ⟨rfl, rfl⟩
  all_goals exact words_token rfl rfl

end Cadence.Json
