/-
  SPELLING — what is written for a whole number is read as this number, by the widths that hold it.

  A whole number is written in decimal (`intText`), or in hexadecimal behind `0x` (`hexText`); a
  minus stands in front of either.  The grammar of literals then decides what is read.

  1. **Decimal** — the digits and the sign are those that the grammar finds again
     (`decimal_intText`), so a width makes the number itself of the text, if it holds it
     (`reads_intText`).  The reader takes the text if its digits are few enough (`Writable`).
  2. **Hexadecimal** — behind `0x` stand the digits of the number (`hexadecimal_hexText`), and an
     unsigned width makes the number of them, if it holds it.  In front of a minus there is no `0x`,
     and no decimal text holds an `x`, so a number below zero is read by no width
     (`not_reads_hexText`).
-/
import Cadence.Proofs.Documents.Words
import Cadence.Proofs.Numbers.Literals

namespace Cadence

open Json Literal Text

/-- The decimal digits of a whole number are few enough to be written, and to be read. -/
def Writable (n : Int) : Prop := (Nat.toDigits 10 n.natAbs).length ≤ digitLimit

instance (n : Int) : Decidable (Writable n) := inferInstanceAs (Decidable (_ ≤ _))

/-- A number of 32 bits has ten digits at most. -/
theorem writable_of_lt {n : Int} (h : n.natAbs < 2 ^ 32) : Writable n := by
  have hten : (Nat.toDigits 10 n.natAbs).length ≤ 10 :=
    (length_toDigits_le_iff (by decide)).mpr (Nat.lt_trans h (by decide))
  exact Nat.le_trans hten (by decide)

theorem writeInt_of_writable {n : Int} (h : Writable n) : writeInt n = .ok (intText n) :=
  if_neg (Nat.not_lt.mpr h)

theorem writeInt_of_not_writable {n : Int} (h : ¬ Writable n) : writeInt n = .error .unwritable :=
  if_pos (Nat.not_le.mp h)

/-! ## Separators -/

/-- What stands at or above the digits in the order of characters is no separator. -/
theorem not_isSeparator_of_le {c : Char} (h : 0x20 ≤ c.toNat) : isSeparator c = false := by
  simp only [isSeparator, Bool.and_eq_false_iff, decide_eq_false_iff_not]
  omega

theorem not_isSeparator_of_isHexDigit {c : Char} (h : isHexDigit c = true) :
    isSeparator c = false := by
  refine not_isSeparator_of_le ?_
  have hge : 48 ≤ c.toNat := by
    simp only [isHexDigit, isDigit, Bool.or_eq_true, Bool.and_eq_true, decide_eq_true_eq] at h
    rcases h with (⟨h, -⟩ | ⟨h, -⟩) | ⟨h, -⟩
    · exact h
    · exact Nat.le_trans (by decide) (show 97 ≤ c.toNat from h)
    · exact Nat.le_trans (by decide) (show 65 ≤ c.toNat from h)
  omega

theorem isHexDigit_of_isDigit {c : Char} (h : isDigit c = true) : isHexDigit c = true := by
  rw [isHexDigit, h, Bool.true_or, Bool.true_or]

/-! ## Decimal texts -/

section

variable {w : Width} {n m : Int}

/-- The sign and the digits of a number are found again in its text. -/
theorem decimal_intText (n : Int) :
    Decimal (intText n).toList (decide (n < 0)) (Nat.toDigits 10 n.natAbs) := by
  have hsign : Sign (if decide (n < 0) then ['-'] else []) (decide (n < 0)) := by
    cases decide (n < 0) with
    | true => exact .minus
    | false => exact .absent
  have hdigits : ∀ c ∈ Nat.toDigits 10 n.natAbs, isDigit c = true :=
    fun c hc => isDigit_of_mem_toDigits hc
  have none : ∀ c ∈ ([] : List Char), isBlank c = true := nofun
  have hform := Decimal.digits none hsign Nat.toDigits_ne_nil hdigits none
  rwa [List.append_nil, List.nil_append, ← toList_intText] at hform

theorem decimalValue_toDigits (n : Int) :
    decimalValue (decide (n < 0)) (Nat.toDigits 10 n.natAbs) = n := by
  rw [← signed_digitsValue_eq, digitsValue_toDigits]
  unfold Double.signed
  by_cases hn : n < 0
  · rw [if_pos (decide_eq_true hn)]
    omega
  · rw [if_neg (by simpa using hn)]
    omega

/-- The reader takes the text of a number whose digits are few enough. -/
theorem readable_intText (h : Writable n) : Readable (intText n) where
  plain := by
    intro c hc
    rw [toList_intText] at hc
    rcases List.mem_append.mp hc with hc | hc
    · split at hc
      · obtain rfl := List.mem_singleton.mp hc
        rfl
      · cases hc
    · exact not_isSeparator_of_isHexDigit (isHexDigit_of_isDigit (isDigit_of_mem_toDigits hc))
  short := by
    intro negative ds hds
    obtain ⟨-, rfl⟩ := hds.unique (decimal_intText n)
    exact h

/-- A width that holds a number makes this number of its text, and no other width makes any. -/
theorem reads_intText : Reads w (some (intText n)) m ↔ w.Holds n ∧ m = n := by
  rw [reads_iff_of_decimal (decimal_intText n), decimalValue_toDigits]

/-- **The decimal text of a number is read as this number**, and refused by the widths that do not
hold it. -/
theorem toWhole_intText (h : Writable n) (w : Width) (reading : Reading) (site : Option Site) :
    (w.Holds n ∧ toWhole w reading (some (intText n)) site = .ok n) ∨
      ¬ w.Holds n ∧ toWhole w reading (some (intText n)) site =
        .error (.at site (.notConvertible reading (some (intText n)))) := by
  have hread : ∀ t, some (intText n) = some t → Readable t := by
    rintro _ ⟨⟩
    exact readable_intText h
  rcases toWhole_of_readable w reading site hread with ⟨m, hm, hok⟩ | ⟨hno, herror⟩
  · obtain ⟨hholds, rfl⟩ := reads_intText.mp hm
    exact .inl ⟨hholds, hok⟩
  · exact .inr ⟨fun hholds => hno n (reads_intText.mpr ⟨hholds, rfl⟩), herror⟩

end

/-! ## Hexadecimal texts -/

section

variable {w : Width} {n m : Int}

theorem toList_hexText (n : Int) :
    (hexText n).toList =
      (if n < 0 then ['-', '0', 'x'] else ['0', 'x']) ++ Nat.toDigits 16 n.natAbs := by
  unfold hexText
  rw [String.toList_append, String.toList_ofList]
  split
  · rfl
  · rfl

/-- What is written in hexadecimal reads back. -/
theorem hexDigits_toDigits (n : Nat) :
    (∀ c ∈ Nat.toDigits 16 n, isHexDigit c = true) ∧ hexDigitsValue (Nat.toDigits 16 n) = n := by
  have one : ∀ d < 16, isHexDigit (Nat.digitChar d) = true ∧ hexValue (Nat.digitChar d) = d := by
    decide
  induction n using Nat.strongRecOn with
  | ind n ih =>
    rw [Nat.toDigits_eq_if (by decide)]
    by_cases hn : n < 16
    · rw [if_pos hn]
      refine ⟨fun c hc => ?_, ?_⟩
      · obtain rfl := List.mem_singleton.mp hc
        exact (one n hn).1
      · show 16 * 0 + hexValue (Nat.digitChar n) = n
        rw [(one n hn).2]
        omega
    · rw [if_neg hn]
      obtain ⟨hall, hvalue⟩ := ih (n / 16) (by omega)
      obtain ⟨hlast, hrest⟩ := one (n % 16) (Nat.mod_lt n (by decide))
      refine ⟨fun c hc => ?_, ?_⟩
      · rcases List.mem_append.mp hc with hc | hc
        · exact hall c hc
        · obtain rfl := List.mem_singleton.mp hc
          exact hlast
      · unfold hexDigitsValue at hvalue ⊢
        rw [List.foldl_append, hvalue]
        show 16 * (n / 16) + hexValue (Nat.digitChar (n % 16)) = n
        rw [hrest]
        exact Nat.div_add_mod n 16

theorem hexadecimal_hexText (n : Nat) : Hexadecimal (hexText n).toList n := by
  obtain ⟨hall, hvalue⟩ := hexDigits_toDigits n
  have hform := Hexadecimal.digits Nat.toDigits_ne_nil hall
  have hpos : ¬ (n : Int) < 0 := by omega
  rw [← hexDigitsValue_eq, hvalue] at hform
  rwa [toList_hexText, if_neg hpos]

/-- A minus makes the text neither hexadecimal nor decimal, so no width makes a number of it. -/
theorem not_reads_hexText (h : n < 0) : ¬ Reads w (some (hexText n)) m := by
  have hcs : (hexText n).toList = '-' :: '0' :: 'x' :: Nat.toDigits 16 n.natAbs := by
    rw [toList_hexText, if_pos h]
    rfl
  intro hread
  cases hread with
  | hexadecimal form =>
    obtain ⟨ds, hds, -⟩ := form.exists_digits
    rw [hcs] at hds
    exact absurd (List.cons.inj hds).1 (by decide)
  | decimal form =>
    have hx : 'x' ∉ (hexText n).toList := form.not_mem_x
    rw [hcs] at hx
    exact hx (by simp)

/-- The reader takes every hexadecimal text: their digits may be many. -/
theorem readable_hexText (n : Int) : Readable (hexText n) where
  plain := by
    intro c hc
    rw [toList_hexText] at hc
    rcases List.mem_append.mp hc with hc | hc
    · have hmark : c ∈ ['-', '0', 'x'] := by
        split at hc
        · exact hc
        · exact List.mem_cons_of_mem _ hc
      simp only [List.mem_cons, List.not_mem_nil, or_false] at hmark
      rcases hmark with rfl | rfl | rfl <;> rfl
    · exact not_isSeparator_of_isHexDigit ((hexDigits_toDigits n.natAbs).1 c hc)
  short := by
    intro negative ds hds
    have hx : 'x' ∉ (hexText n).toList := hds.not_mem_x
    rw [toList_hexText] at hx
    refine absurd (List.mem_append_left _ ?_) hx
    split
    · simp
    · simp

/-- An unsigned width that holds a number makes this number of its hexadecimal text. -/
theorem reads_hexText (hw : w.signed = false) :
    Reads w (some (hexText n)) m ↔ w.Holds n ∧ m = n := by
  by_cases hn : n < 0
  · constructor
    · intro h
      exact absurd h (not_reads_hexText hn)
    · rintro ⟨hholds, -⟩
      exact absurd ((Width.holds_of_unsigned hw).mp hholds).1 (Int.not_le.mpr hn)
  · obtain ⟨k, rfl⟩ := Int.eq_ofNat_of_zero_le (Int.not_lt.mp hn)
    obtain ⟨ds, hds, hv⟩ := (hexadecimal_hexText k).exists_digits
    rw [reads_iff_of_marked hds, hv, Width.holds_of_unsigned hw]
    constructor
    · rintro ⟨v, hk, fits, rfl⟩
      obtain rfl := Option.some.inj hk
      rw [Width.wrap_of_unsigned hw]
      exact ⟨⟨by omega, by exact_mod_cast fits⟩, rfl⟩
    · rintro ⟨⟨-, hlt⟩, rfl⟩
      exact ⟨k, rfl, by exact_mod_cast hlt, (Width.wrap_of_unsigned hw k).symm⟩

/-- **The hexadecimal text of a number is read as this number**, and refused where an unsigned width
does not hold it. -/
theorem toWhole_hexText (hw : w.signed = false) (n : Int) (reading : Reading)
    (site : Option Site) :
    (w.Holds n ∧ toWhole w reading (some (hexText n)) site = .ok n) ∨
      ¬ w.Holds n ∧ toWhole w reading (some (hexText n)) site =
        .error (.at site (.notConvertible reading (some (hexText n)))) := by
  have hread : ∀ t, some (hexText n) = some t → Readable t := by
    rintro _ ⟨⟩
    exact readable_hexText n
  rcases toWhole_of_readable w reading site hread with ⟨m, hm, hok⟩ | ⟨hno, herror⟩
  · obtain ⟨hholds, rfl⟩ := (reads_hexText hw).mp hm
    exact .inl ⟨hholds, hok⟩
  · exact .inr ⟨fun hholds => hno n ((reads_hexText hw).mpr ⟨hholds, rfl⟩), herror⟩

end

end Cadence
