/-
  LITERALS — exactly which texts write a whole number of a width, and which number they write.

  The reader of whole numbers chooses between two forms by a prefix and strips blanks and a sign
  from the text.  Here the texts are described without the reader, and then compared with it.

  1. **The grammar** — `Hexadecimal`: a lower-case `0x` in front of everything, then one or more
     hexadecimal digits to the very end.  `Decimal`: blanks, at most one sign, one or more plain
     digits, blanks.  The value of digits is the sum of their places (`placeValue`), so zeros in
     front count for nothing.
  2. **The denotation** — `Denotes` is the number that a text writes, whatever the width.
     `Reads w` is the number that a width `w` makes of it: a decimal number itself, if the width
     holds it, and a hexadecimal number by the bits of its two's complement.
  3. **The crux** — the blanks, the sign and the digits of a decimal text can be told apart in one
     way only (`wholeForm?_eq_some_iff`).  The strip from both ends finds them since a sign and a
     digit are no blanks, and the split of the sign finds it since a digit is no sign.
  4. **The headline** (`toWhole_grammar`) — the reader answers as the grammar says, and refuses
     every other text with a script error that names the text and its place.
-/
import Mathlib.Data.Int.ModEq
import Mathlib.Data.Nat.Digits.Defs
import Cadence.Value.Literal

namespace Cadence.Literal

open Text

/-! ## The grammar -/

/-- The number that digits write: the sum of their places, the last one counting ones. -/
def placeValue (base : Nat) (value : Char → Nat) (ds : List Char) : Nat :=
  Nat.ofDigits base (ds.reverse.map value)

/-- The value of a plain digit. -/
def digitValue (c : Char) : Nat := c.toNat - '0'.toNat

/-- A text that is `0x` and then hexadecimal digits to its very end, with the number it writes. -/
inductive Hexadecimal : List Char → Nat → Prop where
  /-- There is at least one digit. -/
  | digits {ds : List Char} (some : ds ≠ []) (all : ∀ c ∈ ds, isHexDigit c = true) :
    Hexadecimal ('0' :: 'x' :: ds) (placeValue 16 hexValue ds)

/-- What may stand in front of the digits of a decimal number, and does it make it negative? -/
inductive Sign : List Char → Bool → Prop where
  /-- Nothing. -/
  | absent : Sign [] false
  /-- A plus changes nothing. -/
  | plus : Sign ['+'] false
  /-- A minus. -/
  | minus : Sign ['-'] true

/-- A text that writes a decimal number: its sign and its digits. -/
inductive Decimal : List Char → Bool → List Char → Prop where
  /-- Blanks may stand around the number, but not behind its sign. -/
  | digits {front sign ds back : List Char} {negative : Bool}
      (before : ∀ c ∈ front, isBlank c = true) (signed : Sign sign negative)
      (some : ds ≠ []) (all : ∀ c ∈ ds, isDigit c = true)
      (behind : ∀ c ∈ back, isBlank c = true) :
    Decimal (front ++ (sign ++ ds) ++ back) negative ds

/-- The number of a sign and plain digits. -/
def decimalValue (negative : Bool) (ds : List Char) : Int :=
  if negative then -(placeValue 10 digitValue ds : Int) else placeValue 10 digitValue ds

/-- The number that a text writes, in either form. -/
inductive Denotes (t : String) : Int → Prop where
  /-- A hexadecimal number has no sign. -/
  | hexadecimal {v : Nat} (form : Hexadecimal t.toList v) : Denotes t v
  /-- A decimal number. -/
  | decimal {negative : Bool} {ds : List Char} (form : Decimal t.toList negative ds) :
    Denotes t (decimalValue negative ds)

/-- Does a width hold a number? -/
def Width.Holds (w : Width) (n : Int) : Prop :=
  if w.signed then -2 ^ (w.bits - 1) ≤ n ∧ n < 2 ^ (w.bits - 1) else 0 ≤ n ∧ n < 2 ^ w.bits

/-- The number that a width makes of bits: in a signed width the uppermost bit counts negative. -/
def Width.wrap (w : Width) (v : Nat) : Int :=
  if w.signed ∧ 2 ^ (w.bits - 1) ≤ v then (v : Int) - 2 ^ w.bits else v

/-- **What a width makes of a token**: no token writes no number. -/
inductive Reads (w : Width) : Option String → Int → Prop where
  /-- A hexadecimal number must fit the bits of the width, and wraps. -/
  | hexadecimal {t : String} {v : Nat} (form : Hexadecimal t.toList v) (fits : v < 2 ^ w.bits) :
    Reads w (some t) (w.wrap v)
  /-- A decimal number must be in the range of the width, and never wraps. -/
  | decimal {t : String} {negative : Bool} {ds : List Char} (form : Decimal t.toList negative ds)
      (holds : w.Holds (decimalValue negative ds)) :
    Reads w (some t) (decimalValue negative ds)

/-- A text that the reader of digits can take: without information separators, and without more
digits than are read. -/
structure Readable (t : String) : Prop where
  /-- No separator stands in the text. -/
  plain : ∀ c ∈ t.toList, isSeparator c = false
  /-- If the text is a decimal number, then its digits are few enough. -/
  short : ∀ negative ds, Decimal t.toList negative ds → ds.length ≤ digitLimit

/-! ## Digits by their places -/

/-- A fold from the first digit on counts the places. -/
theorem foldl_eq_placeValue (base : Nat) (value : Char → Nat) (ds : List Char) :
    ds.foldl (fun n c => base * n + value c) 0 = placeValue base value ds := by
  rw [placeValue, Nat.ofDigits_eq_foldr, List.foldr_map, List.foldr_reverse]
  congr 1
  funext n c
  rw [Nat.cast_id]
  omega

theorem hexDigitsValue_eq (ds : List Char) : hexDigitsValue ds = placeValue 16 hexValue ds :=
  foldl_eq_placeValue 16 hexValue ds

theorem signed_digitsValue_eq (negative : Bool) (ds : List Char) :
    Double.signed negative (digitsValue ds) = decimalValue negative ds := by
  have hv : digitsValue ds = placeValue 10 digitValue ds := foldl_eq_placeValue 10 digitValue ds
  rw [Double.signed, decimalValue, hv]

/-- The check for digits that both readers make. -/
theorem digits_iff {p : Char → Bool} {ds : List Char} :
    ¬ (ds.isEmpty = true ∨ (!ds.all p) = true) ↔ ds ≠ [] ∧ ∀ c ∈ ds, p c = true := by
  rw [not_or, Bool.not_eq_true, Bool.not_eq_true, Bool.not_eq_false', List.all_eq_true,
    List.isEmpty_eq_false_iff]

/-! ## Hexadecimal texts -/

theorem hexForm?_eq_some_iff {ds : List Char} {v : Nat} :
    hexForm? ds = some v ↔ Hexadecimal ('0' :: 'x' :: ds) v := by
  constructor
  · intro h
    unfold hexForm? at h
    split at h
    · cases h
    · next hds =>
      obtain ⟨some, all⟩ := digits_iff.mp hds
      rw [← Option.some.inj h, hexDigitsValue_eq]
      exact .digits some all
  · intro h
    cases h with
    | digits some all => rw [hexForm?, if_neg (digits_iff.mpr ⟨some, all⟩), hexDigitsValue_eq]

theorem hexDigits?_eq_some_iff {t : String} {ds : List Char} :
    hexDigits? t = some ds ↔ t.toList = '0' :: 'x' :: ds := by
  unfold hexDigits?
  split
  · next rest h => simp only [h, Option.some.injEq, List.cons.injEq, true_and]
  · next h =>
    constructor
    · intro hn
      cases hn
    · intro hds
      exact absurd hds (h ds)

/-! ## Decimal texts -/

theorem not_isBlank_of_isDigit {c : Char} (h : isDigit c = true) : isBlank c = false := by
  have hlo : 48 ≤ c.toNat ∧ c.toNat ≤ 57 := by
    simp only [isDigit, Bool.and_eq_true, decide_eq_true_eq] at h
    exact h
  simp only [isBlank, blankRanges, List.any_cons, List.any_nil, Bool.or_false, Bool.or_eq_false_iff,
    Bool.and_eq_false_iff, decide_eq_false_iff_not]
  omega

/-- Nothing is stripped from the front of a text that begins with a character that stays. -/
theorem dropWhile_append_of_forall_not {p : Char → Bool} {core : List Char}
    (hcore : ∀ c ∈ core, p c = false) (hne : core ≠ []) (rest : List Char) :
    (core ++ rest).dropWhile p = core ++ rest := by
  cases core with
  | nil => exact absurd rfl hne
  | cons c core =>
    have hc : ¬ p c = true := by
      rw [hcore c List.mem_cons_self]
      decide
    exact List.dropWhile_cons_of_neg hc

/-- Stripping finds what stands between stripped characters and has none of them itself. -/
theorem trimBy_append {p : Char → Bool} {front core back : List Char}
    (hf : ∀ c ∈ front, p c = true) (hb : ∀ c ∈ back, p c = true)
    (hcore : ∀ c ∈ core, p c = false) (hne : core ≠ []) :
    trimBy p (front ++ core ++ back) = core := by
  have hfront : (front ++ core ++ back).dropWhile p = core ++ back := by
    rw [List.append_assoc, List.dropWhile_append_of_pos hf]
    exact dropWhile_append_of_forall_not hcore hne back
  have hback : (core ++ back).reverse.dropWhile p = core.reverse := by
    rw [List.reverse_append,
      List.dropWhile_append_of_pos fun c hc => hb c (List.mem_reverse.mp hc)]
    have hrev := dropWhile_append_of_forall_not
      (fun c hc => hcore c (List.mem_reverse.mp hc)) (mt List.reverse_eq_nil_iff.mp hne) []
    rwa [List.append_nil] at hrev
  rw [trimBy, hfront, hback, List.reverse_reverse]

/-- What is stripped from a text stands at its ends. -/
theorem exists_append_trimBy (p : Char → Bool) (cs : List Char) :
    ∃ front back, cs = front ++ trimBy p cs ++ back ∧
      (∀ c ∈ front, p c = true) ∧ ∀ c ∈ back, p c = true := by
  refine ⟨cs.takeWhile p, ((cs.dropWhile p).reverse.takeWhile p).reverse, ?_, ?_, ?_⟩
  · have hrev : (cs.dropWhile p).reverse =
        (cs.dropWhile p).reverse.takeWhile p ++ (cs.dropWhile p).reverse.dropWhile p :=
      List.takeWhile_append_dropWhile.symm
    have hdrop : cs.dropWhile p =
        trimBy p cs ++ ((cs.dropWhile p).reverse.takeWhile p).reverse := by
      rw [trimBy, ← List.reverse_append, ← hrev, List.reverse_reverse]
    rw [List.append_assoc, ← hdrop, List.takeWhile_append_dropWhile]
  · intro c hc
    exact List.all_eq_true.mp List.all_takeWhile c hc
  · intro c hc
    exact List.all_eq_true.mp List.all_takeWhile c (List.mem_reverse.mp hc)

/-- A sign is split from the digits behind it. -/
theorem splitSign_append {sign ds : List Char} {negative : Bool} (hs : Sign sign negative)
    (hne : ds ≠ []) (hd : ∀ c ∈ ds, isDigit c = true) :
    splitSign (sign ++ ds) = (negative, ds) := by
  cases hs with
  | plus => rfl
  | minus => rfl
  | absent =>
    cases ds with
    | nil => exact absurd rfl hne
    | cons c rest =>
      have hc := hd c List.mem_cons_self
      have hminus : c ≠ '-' := by
        rintro rfl
        exact absurd hc (by decide)
      have hplus : c ≠ '+' := by
        rintro rfl
        exact absurd hc (by decide)
      simp only [List.nil_append]
      unfold splitSign
      split
      · next h => exact absurd (List.cons.inj h).1 hminus
      · next h => exact absurd (List.cons.inj h).1 hplus
      · rfl

/-- What is split from a text is a sign. -/
theorem exists_sign_append (cs : List Char) :
    ∃ sign, cs = sign ++ (splitSign cs).2 ∧ Sign sign (splitSign cs).1 := by
  unfold splitSign
  split
  · exact ⟨['-'], rfl, .minus⟩
  · exact ⟨['+'], rfl, .plus⟩
  · exact ⟨[], rfl, .absent⟩

/-- A sign is no blank. -/
theorem Sign.not_isBlank {sign : List Char} {negative : Bool} (hs : Sign sign negative) :
    ∀ c ∈ sign, isBlank c = false := by
  intro c hc
  cases hs with
  | absent => cases hc
  | plus =>
    obtain rfl := List.mem_singleton.mp hc
    rfl
  | minus =>
    obtain rfl := List.mem_singleton.mp hc
    rfl

/-- **The crux: the parts of a decimal text can be told apart in one way only**, and the reader
finds them. -/
theorem wholeForm?_eq_some_iff {t : String} {negative : Bool} {ds : List Char} :
    wholeForm? t = some (negative, ds) ↔ Decimal t.toList negative ds := by
  constructor
  · intro h
    unfold wholeForm? at h
    obtain ⟨front, back, ht, hf, hb⟩ := exists_append_trimBy isBlank t.toList
    obtain ⟨sign, hcore, hs⟩ := exists_sign_append (trimBy isBlank t.toList)
    rcases splitSign (trimBy isBlank t.toList) with ⟨found, digits⟩
    dsimp only at h hcore hs
    split at h
    · cases h
    · next hds =>
      obtain ⟨some, all⟩ := digits_iff.mp hds
      obtain ⟨rfl, rfl⟩ := Prod.mk.inj (Option.some.inj h)
      have hform := Decimal.digits hf hs some all hb
      rwa [← hcore, ← ht] at hform
  · intro h
    generalize hcs : t.toList = cs at h
    cases h with
    | @digits front sign _ back _ before signed some all behind =>
      -- the strip stops at the sign or the first digit, and at the last digit
      have hcore : ∀ c ∈ sign ++ ds, isBlank c = false := by
        intro c hc
        rcases List.mem_append.mp hc with hc | hc
        · exact signed.not_isBlank c hc
        · exact not_isBlank_of_isDigit (all c hc)
      have htrim : trimBy isBlank t.toList = sign ++ ds := by
        rw [hcs]
        refine trimBy_append before behind hcore ?_
        intro hnil
        exact some (List.append_eq_nil_iff.mp hnil).2
      unfold wholeForm?
      rw [htrim, splitSign_append signed some all]
      exact if_neg (digits_iff.mpr ⟨some, all⟩)

/-- A text has one sign and one run of digits at most. -/
theorem Decimal.unique {t : String} {negative negative' : Bool} {ds ds' : List Char}
    (h : Decimal t.toList negative ds) (h' : Decimal t.toList negative' ds') :
    negative = negative' ∧ ds = ds' := by
  have hpair := (wholeForm?_eq_some_iff.mpr h).symm.trans (wholeForm?_eq_some_iff.mpr h')
  exact Prod.mk.inj (Option.some.inj hpair)

/-- No letter stands in a decimal text: it would have to be a blank, a sign or a digit. -/
theorem Decimal.not_mem_x {cs : List Char} {negative : Bool} {ds : List Char}
    (h : Decimal cs negative ds) : 'x' ∉ cs := by
  intro hx
  cases h with
  | digits before signed some all behind =>
    rcases List.mem_append.mp hx with hx | hx
    · rcases List.mem_append.mp hx with hx | hx
      · exact absurd (before _ hx) (by decide)
      · rcases List.mem_append.mp hx with hx | hx
        · cases signed with
          | absent => cases hx
          | plus => exact absurd hx (by decide)
          | minus => exact absurd hx (by decide)
        · exact absurd (all _ hx) (by decide)
    · exact absurd (behind _ hx) (by decide)

/-- A text of one form is not a text of the other: no decimal text begins with `0x`. -/
theorem Decimal.not_hexadecimal {cs : List Char} {negative : Bool} {ds : List Char}
    (h : Decimal cs negative ds) (rest : List Char) : cs ≠ '0' :: 'x' :: rest := by
  rintro rfl
  exact h.not_mem_x (List.mem_cons_of_mem _ List.mem_cons_self)

/-- Digits that the reader can take are read as the number they write. -/
theorem readWhole_of_readable {t : String} (ht : Readable t) {negative : Bool} {ds : List Char}
    (h : Decimal t.toList negative ds) :
    readWhole t negative ds = .ok (decimalValue negative ds) := by
  have hfront : (t.toList.takeWhile isBlank).any isSeparator = false :=
    List.any_eq_false.mpr fun c hc => by
      rw [ht.plain c ((List.takeWhile_sublist isBlank).subset hc)]
      decide
  have haround : (t.toList.filter isBlank).any isSeparator = false :=
    List.any_eq_false.mpr fun c hc => by
      rw [ht.plain c (List.mem_filter.mp hc).1]
      decide
  have hshort : ¬ digitLimit < ds.length := Nat.not_lt.mpr (ht.short negative ds h)
  rw [readWhole, hfront, if_neg (by decide), if_neg hshort, haround, if_neg (by decide),
    signed_digitsValue_eq]

/-! ## Widths -/

section Widths

variable {w : Width}

theorem Width.count_eq (w : Width) : w.count = 2 ^ w.bits := Nat.pow_eq

theorem Width.half_eq (w : Width) : w.half = 2 ^ (w.bits - 1) := Nat.pow_eq

theorem Width.holds_iff {n : Int} : w.Holds n ↔ w.least ≤ n ∧ n < w.limit := by
  have hc : ((2 ^ w.bits : Nat) : Int) = 2 ^ w.bits := by push_cast; rfl
  have hh : ((2 ^ (w.bits - 1) : Nat) : Int) = 2 ^ (w.bits - 1) := by push_cast; rfl
  unfold Width.Holds Width.least Width.limit
  rw [Width.count_eq, Width.half_eq, hc, hh]
  cases w.signed <;> exact Iff.rfl

theorem Width.ofBits?_eq_some_iff {v : Nat} {n : Int} :
    w.ofBits? v = some n ↔ v < 2 ^ w.bits ∧ n = w.wrap v := by
  have hc : ((2 ^ w.bits : Nat) : Int) = 2 ^ w.bits := by push_cast; rfl
  unfold Width.ofBits? Width.wrap
  rw [Width.count_eq, Width.half_eq, hc]
  split
  · next hv => simp only [hv, true_and, Option.some.injEq, eq_comm]
  · next hv => simp only [hv, false_and, reduceCtorEq]

/-- What a width makes of bits is in its range. -/
theorem Width.holds_wrap (hw : 0 < w.bits) {v : Nat} (hv : v < 2 ^ w.bits) : w.Holds (w.wrap v) :=
  Width.holds_iff.mpr (Width.ofBits?_inRange hw (Width.ofBits?_eq_some_iff.mpr ⟨hv, rfl⟩))

/-- An unsigned width takes every number as it is. -/
theorem Width.wrap_of_unsigned (hw : w.signed = false) (v : Nat) : w.wrap v = v := by
  have hno : ¬ (w.signed = true ∧ 2 ^ (w.bits - 1) ≤ v) := by
    rintro ⟨hs, -⟩
    rw [hw] at hs
    cases hs
  exact if_neg hno

theorem Width.holds_of_unsigned (hw : w.signed = false) {n : Int} :
    w.Holds n ↔ 0 ≤ n ∧ n < 2 ^ w.bits := by
  unfold Width.Holds
  rw [hw]
  exact Iff.rfl

/-- The bits of the number are the bits given. -/
theorem Width.wrap_modEq (w : Width) (v : Nat) : w.wrap v ≡ v [ZMOD 2 ^ w.bits] := by
  unfold Width.wrap
  split
  · exact Int.sub_modulus_modEq_iff.mpr rfl
  · exact Int.ModEq.refl _

end Widths

/-! ## What a width makes of a token -/

section Reading

variable {w : Width} {t : String} {ds : List Char}

/-- What is hexadecimal begins with `0x`. -/
theorem Hexadecimal.exists_digits {cs : List Char} {v : Nat} (h : Hexadecimal cs v) :
    ∃ ds, cs = '0' :: 'x' :: ds ∧ hexForm? ds = some v := by
  cases h with
  | @digits ds some all => exact ⟨ds, rfl, hexForm?_eq_some_iff.mpr (.digits some all)⟩

/-- A text writes one number at most. -/
theorem Denotes.unique {m n : Int} (hm : Denotes t m) (hn : Denotes t n) : m = n := by
  cases hm with
  | hexadecimal hm =>
    obtain ⟨ds, hds, hv⟩ := hm.exists_digits
    cases hn with
    | hexadecimal hn =>
      obtain ⟨ds', hds', hv'⟩ := hn.exists_digits
      obtain rfl : ds = ds' := by simpa [hds] using hds'
      rw [Option.some.inj (hv.symm.trans hv')]
    | decimal hn => exact absurd hds (hn.not_hexadecimal ds)
  | decimal hm =>
    cases hn with
    | hexadecimal hn =>
      obtain ⟨ds, hds, -⟩ := hn.exists_digits
      exact absurd hds (hm.not_hexadecimal ds)
    | decimal hn =>
      obtain ⟨rfl, rfl⟩ := hm.unique hn
      rfl

/-- Behind the prefix, a text is read by its bits or not at all. -/
theorem reads_iff_of_marked (hcs : t.toList = '0' :: 'x' :: ds) {n : Int} :
    Reads w (some t) n ↔ ∃ v, hexForm? ds = some v ∧ v < 2 ^ w.bits ∧ n = w.wrap v := by
  constructor
  · intro h
    cases h with
    | hexadecimal form fits =>
      rw [hcs] at form
      exact ⟨_, hexForm?_eq_some_iff.mpr form, fits, rfl⟩
    | decimal form => exact absurd hcs (form.not_hexadecimal ds)
  · rintro ⟨v, hv, fits, rfl⟩
    refine .hexadecimal ?_ fits
    rw [hcs]
    exact hexForm?_eq_some_iff.mp hv

/-- Without the prefix, a text is read as a decimal number or not at all. -/
theorem reads_iff_of_unmarked (hhex : hexDigits? t = none) {n : Int} :
    Reads w (some t) n ↔
      ∃ negative ds, wholeForm? t = some (negative, ds) ∧ w.Holds (decimalValue negative ds) ∧
        n = decimalValue negative ds := by
  constructor
  · intro h
    cases h with
    | hexadecimal form =>
      obtain ⟨ds, hds, -⟩ := form.exists_digits
      rw [hexDigits?_eq_some_iff.mpr hds] at hhex
      cases hhex
    | decimal form holds => exact ⟨_, _, wholeForm?_eq_some_iff.mpr form, holds, rfl⟩
  · rintro ⟨negative, ds, hform, holds, rfl⟩
    exact .decimal (wholeForm?_eq_some_iff.mp hform) holds

/-- A decimal text is read as its own number, by the widths that hold it. -/
theorem reads_iff_of_decimal {negative : Bool} (form : Decimal t.toList negative ds) {n : Int} :
    Reads w (some t) n ↔ w.Holds (decimalValue negative ds) ∧ n = decimalValue negative ds := by
  have hunmarked : hexDigits? t = none := by
    cases hhex : hexDigits? t with
    | none => rfl
    | some rest => exact absurd (hexDigits?_eq_some_iff.mp hhex) (form.not_hexadecimal rest)
  rw [reads_iff_of_unmarked hunmarked, wholeForm?_eq_some_iff.mpr form]
  constructor
  · rintro ⟨negative', ds', hpair, holds, rfl⟩
    obtain ⟨rfl, rfl⟩ := Prod.mk.inj (Option.some.inj hpair)
    exact ⟨holds, rfl⟩
  · rintro ⟨holds, rfl⟩
    exact ⟨negative, ds, rfl, holds, rfl⟩

/-- The reader answers for every text that it can take, and as the grammar says. -/
theorem whole?_of_readable (w : Width) (ht : Readable t) :
    ∃ o, whole? w t = .ok o ∧ ∀ n, o = some n ↔ Reads w (some t) n := by
  rcases hhex : hexDigits? t with _ | ds
  · rcases hform : wholeForm? t with _ | ⟨negative, ds⟩
    · refine ⟨none, by rw [whole?, hhex, hform], ?_⟩
      intro n
      rw [reads_iff_of_unmarked hhex, hform]
      simp only [reduceCtorEq, false_and, exists_false]
    · have hread := readWhole_of_readable ht (wholeForm?_eq_some_iff.mp hform)
      refine ⟨w.check? (decimalValue negative ds), ?_, ?_⟩
      · rw [whole?, hhex, hform]
        dsimp only
        rw [hread]
        rfl
      · intro n
        rw [reads_iff_of_unmarked hhex, hform, Width.check?_eq_some_iff, ← Width.holds_iff]
        constructor
        · rintro ⟨rfl, holds⟩
          exact ⟨negative, ds, rfl, holds, rfl⟩
        · rintro ⟨_, _, hpair, holds, rfl⟩
          obtain ⟨rfl, rfl⟩ := Prod.mk.inj (Option.some.inj hpair)
          exact ⟨rfl, holds⟩
  · refine ⟨(hexForm? ds).bind w.ofBits?, by rw [whole?, hhex], ?_⟩
    intro n
    rw [reads_iff_of_marked (hexDigits?_eq_some_iff.mp hhex), Option.bind_eq_some_iff]
    simp only [Width.ofBits?_eq_some_iff]

end Reading

/-! ## What the conversions answer -/

section Conversions

variable {w : Width} {token : Option String} {site : Option Site} {n : Int}

/-- A conversion gives a number exactly where the width makes one of the token; it refuses every
other token by a script error that names the token and stands at its site. -/
theorem toWhole_of_readable (w : Width) (r : Reading) (site : Option Site)
    (ht : ∀ t, token = some t → Readable t) :
    (∃ n, Reads w token n ∧ toWhole w r token site = .ok n) ∨
      (∀ n, ¬ Reads w token n) ∧
        toWhole w r token site = .error (.at site (.notConvertible r token)) := by
  cases token with
  | none =>
    refine .inr ⟨?_, rfl⟩
    intro n hn
    cases hn
  | some t =>
    obtain ⟨o, ho, hiff⟩ := whole?_of_readable w (ht t rfl)
    cases o with
    | none =>
      refine .inr ⟨?_, by rw [toWhole, ho]; rfl⟩
      intro n hn
      cases (hiff n).mpr hn
    | some n => exact .inl ⟨n, (hiff n).mp rfl, by rw [toWhole, ho]; rfl⟩

/-- A width makes one number at most of a token. -/
theorem Reads.unique {m : Int} (hm : Reads w token m) (hn : Reads w token n) : m = n := by
  cases token with
  | none => cases hm
  | some t =>
    rcases hhex : hexDigits? t with _ | ds
    · rw [reads_iff_of_unmarked hhex] at hm hn
      obtain ⟨negative, ds, hform, -, rfl⟩ := hm
      obtain ⟨negative', ds', hform', -, rfl⟩ := hn
      obtain ⟨rfl, rfl⟩ := Prod.mk.inj (Option.some.inj (hform.symm.trans hform'))
      rfl
    · rw [reads_iff_of_marked (hexDigits?_eq_some_iff.mp hhex)] at hm hn
      obtain ⟨v, hv, -, rfl⟩ := hm
      obtain ⟨v', hv', -, rfl⟩ := hn
      rw [Option.some.inj (hv.symm.trans hv')]

theorem toWhole_eq_ok_iff {r : Reading} (ht : ∀ t, token = some t → Readable t) :
    toWhole w r token site = .ok n ↔ Reads w token n := by
  rcases toWhole_of_readable w r site ht with ⟨m, hm, hok⟩ | ⟨hno, herror⟩
  · rw [hok]
    constructor
    · rintro ⟨⟩
      exact hm
    · intro hn
      rw [hm.unique hn]
  · rw [herror]
    constructor
    · rintro ⟨⟩
    · intro hn
      exact absurd hn (hno n)

/-- What a width makes of a token is in its range, and has the bits of the one number that the
token writes. -/
theorem Reads.holds (hw : 0 < w.bits) (h : Reads w token n) :
    w.Holds n ∧
      ∃ t z, token = some t ∧ (∀ z', Denotes t z' ↔ z' = z) ∧ n ≡ z [ZMOD 2 ^ w.bits] := by
  have one : ∀ {t z}, Denotes t z → ∀ z', Denotes t z' ↔ z' = z := by
    intro t z hz z'
    constructor
    · intro hz'
      exact hz'.unique hz
    · rintro rfl
      exact hz
  cases h with
  | hexadecimal form fits =>
    exact ⟨Width.holds_wrap hw fits, _, _, rfl, one (.hexadecimal form), Width.wrap_modEq w _⟩
  | decimal form holds => exact ⟨holds, _, _, rfl, one (.decimal form), Int.ModEq.refl _⟩

/-- What an unsigned width makes of a token, a wider one makes of it. -/
theorem Reads.widen {wide : Width} (hw : w.signed = false) (hs : wide.signed = false)
    (hle : w.bits ≤ wide.bits) (h : Reads w token n) : Reads wide token n := by
  cases h with
  | hexadecimal form fits =>
    have hpow : 2 ^ w.bits ≤ 2 ^ wide.bits := Nat.pow_le_pow_right (by decide) hle
    have hwide := Reads.hexadecimal form (Nat.lt_of_lt_of_le fits hpow)
    rwa [Width.wrap_of_unsigned hs, ← Width.wrap_of_unsigned hw] at hwide
  | decimal form holds =>
    have hpow : (2 : Int) ^ w.bits ≤ 2 ^ wide.bits :=
      pow_le_pow_right₀ (by decide) hle
    rw [Width.holds_of_unsigned hw] at holds
    refine .decimal form ((Width.holds_of_unsigned hs).mpr ⟨holds.1, ?_⟩)
    exact Int.lt_of_lt_of_le holds.2 hpow

/-- Two widths of as many bits make of a hexadecimal token either both a number or both none. -/
theorem exists_reads_congr {w' : Width} (hw : w.bits = w'.bits) {t : String} {ds : List Char}
    (hcs : t.toList = '0' :: 'x' :: ds) :
    (∃ n, Reads w (some t) n) ↔ ∃ n, Reads w' (some t) n := by
  simp only [reads_iff_of_marked hcs, hw]
  constructor
  · rintro ⟨-, v, hv, fits, -⟩
    exact ⟨_, v, hv, fits, rfl⟩
  · rintro ⟨-, v, hv, fits, -⟩
    exact ⟨_, v, hv, fits, rfl⟩

/-- Two widths of as many bits make the same number of a token but for those bits. -/
theorem Reads.modEq {w' : Width} (hb : 0 < w.bits) (hw : w.bits = w'.bits) {m : Int}
    (hn : Reads w token n) (hm : Reads w' token m) : n ≡ m [ZMOD 2 ^ w.bits] := by
  obtain ⟨-, t, z, rfl, hz, hnz⟩ := hn.holds hb
  obtain ⟨-, t', z', ht, hz', hmz⟩ := hm.holds (hw ▸ hb)
  cases ht
  obtain rfl : z' = z := (hz z').mp ((hz' z').mpr rfl)
  rw [← hw] at hmz
  exact hnz.trans hmz.symm

end Conversions

/-- **Whole numbers are read by the grammar.**  Of a token without separators and with few enough
digits, a width makes exactly the numbers that the grammar says; every other token is refused by a
script error.  So the answer is in the range of the width and has the bits of the one number that
the token writes; the signed and the unsigned reading of 32 bits take the same hexadecimal tokens,
and agree but for those bits; and what is read in 16 bits is read in 32 bits as well, as the same
number. -/
theorem toWhole_grammar (token : Option String) (ht : ∀ t, token = some t → Readable t)
    (site : Option Site) :
    (∀ (w : Width) (r : Reading), 0 < w.bits →
      (∀ n, toWhole w r token site = .ok n ↔ Reads w token n) ∧
      ((∀ n, ¬ Reads w token n) →
        toWhole w r token site = .error (.at site (.notConvertible r token))) ∧
      ∀ n, toWhole w r token site = .ok n → w.Holds n ∧
        ∃ t z, token = some t ∧ (∀ z', Denotes t z' ↔ z' = z) ∧ n ≡ z [ZMOD 2 ^ w.bits]) ∧
    (∀ t ds, token = some t → t.toList = '0' :: 'x' :: ds →
      ((∃ n, toInt token site = .ok n) ↔ ∃ n, toUInt token site = .ok n)) ∧
    (∀ n m, toInt token site = .ok n → toUInt token site = .ok m → n ≡ m [ZMOD 2 ^ 32]) ∧
    ∀ n, toUShort token site = .ok n → toUInt token site = .ok n := by
  have hint : ∀ n, toInt token site = .ok n ↔ Reads int32 token n :=
    fun _ => toWhole_eq_ok_iff ht
  have huint : ∀ n, toUInt token site = .ok n ↔ Reads uint32 token n :=
    fun _ => toWhole_eq_ok_iff ht
  have hushort : ∀ n, toUShort token site = .ok n ↔ Reads uint16 token n :=
    fun _ => toWhole_eq_ok_iff ht
  refine ⟨?_, ?_, ?_, ?_⟩
  · intro w r hw
    refine ⟨fun _ => toWhole_eq_ok_iff ht, ?_, ?_⟩
    · intro hno
      rcases toWhole_of_readable w r site ht with ⟨n, hn, -⟩ | ⟨-, herror⟩
      · exact absurd hn (hno n)
      · exact herror
    · intro n hn
      exact ((toWhole_eq_ok_iff ht).mp hn).holds hw
  · rintro t ds rfl hcs
    simp only [hint, huint]
    exact exists_reads_congr (by decide) hcs
  · intro n m hn hm
    rw [hint] at hn
    rw [huint] at hm
    exact hn.modEq (by decide) (by decide) hm
  · intro n hn
    rw [hushort] at hn
    rw [huint]
    exact hn.widen rfl rfl (by decide)

/-- A token with needless zeros whose bits are all set: `-1` where the uppermost bit counts
negative, and too large for 16 bits. -/
theorem toWhole_grammar_of_all_bits :
    Readable "0x00FFFFFFFF" ∧ toInt (some "0x00FFFFFFFF") none = .ok (-1) ∧
      toUInt (some "0x00FFFFFFFF") none = .ok 4294967295 ∧
      toUShort (some "0x00FFFFFFFF") none =
        .error (.at none (.notConvertible .ushort (some "0x00FFFFFFFF"))) := by
  have hcs : "0x00FFFFFFFF".toList = '0' :: 'x' :: "00FFFFFFFF".toList := by decide
  have hform : Hexadecimal "0x00FFFFFFFF".toList 4294967295 := by
    rw [hcs]
    exact hexForm?_eq_some_iff.mp (by decide)
  have ht : Readable "0x00FFFFFFFF" := by
    have hplain : "0x00FFFFFFFF".toList.any isSeparator = false := by decide
    constructor
    · intro c hc
      exact Bool.eq_false_of_not_eq_true (List.any_eq_false.mp hplain c hc)
    · intro negative ds h
      exact absurd hcs (h.not_hexadecimal _)
  obtain ⟨hall, -, -, -⟩ :=
    toWhole_grammar (some "0x00FFFFFFFF") (fun t h => Option.some.inj h ▸ ht) none
  refine ⟨ht, ?_, ?_, ?_⟩
  · exact ((hall int32 .int (by decide)).1 (-1)).mpr (.hexadecimal hform (by decide))
  · exact ((hall uint32 .uint (by decide)).1 4294967295).mpr (.hexadecimal hform (by decide))
  · refine (hall uint16 .ushort (by decide)).2.1 ?_
    intro n hn
    rw [reads_iff_of_marked hcs, hexForm?_eq_some_iff.mpr (hcs ▸ hform)] at hn
    obtain ⟨v, hv, fits, -⟩ := hn
    cases hv
    exact absurd fits (by decide)

end Cadence.Literal
