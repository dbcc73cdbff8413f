/-
  DECIMALS — a whole number and the digits it is written with.

  A whole number is written with a sign and digits, and read from them.  What is written reads back
  (`digitsValue_toDigits`), it starts with no needless zero, and it is as SHORT as any digits of the
  same value (`length_toDigits_le`).  So a number that was read from few enough characters is
  written with few enough of them (`IsShort`), and below zero is the only place where the sign
  counts.
-/
import Cadence.Json.Token

namespace Cadence

open Text

/-- Are the digits of a whole number and its minus sign few enough to be read? -/
def IsShort (n : Int) : Prop := Json.tooLong (n < 0) (Nat.toDigits 10 n.natAbs) = false

/-- The first whole number with more digits than are read. -/
def digitBound : Nat := Nat.pow 10 digitLimit

namespace Text

/-! ## The digits of a number -/

theorem isDigit_of_mem_toDigits {n : Nat} {c : Char} (h : c ∈ Nat.toDigits 10 n) :
    isDigit c = true :=
  Nat.isDigit_of_mem_toDigits (by decide) (by decide) h

/-- What is written reads back. -/
theorem digitsValue_toDigits (n : Nat) : digitsValue (Nat.toDigits 10 n) = n :=
  Nat.ofDigitChars_ten_toDigits

/-- Only zero is written with a zero in front, and it is written with nothing else. -/
theorem head?_toDigits (n : Nat) (h : n ≠ 0) : (Nat.toDigits 10 n).head? ≠ some '0' := by
  induction n using Nat.strongRecOn with
  | ind n ih =>
    rw [Nat.toDigits_eq_if (by decide)]
    by_cases hn : n < 10
    · rw [if_pos hn]
      intro hc
      exact h (Nat.digitChar_eq_zero.mp (Option.some.inj hc))
    · have hq : n / 10 ≠ 0 := by omega
      have hne : Nat.toDigits 10 (n / 10) ≠ [] := Nat.toDigits_ne_nil
      have ihq := ih (n / 10) (by omega) hq
      rw [if_neg hn]
      cases hds : Nat.toDigits 10 (n / 10) with
      | nil => exact absurd hds hne
      | cons c rest =>
        rw [hds] at ihq
        exact ihq

/-! ## The value of digits -/

theorem digit_le {c : Char} (h : isDigit c = true) : c.toNat - 48 ≤ 9 := by
  have hle : c.toNat ≤ 57 := by
    simp only [isDigit, Bool.and_eq_true, decide_eq_true_eq] at h
    exact h.2
  omega

/-- Digits write a number below the power of ten of their count. -/
theorem digitsValue_lt {ds : List Char} (h : ds.all isDigit = true) :
    digitsValue ds < Nat.pow 10 ds.length := by
  -- the induction is on the digits that are left, for any value of those before them
  have go : ∀ (ds : List Char) (n : Nat), ds.all isDigit = true →
      ds.foldl (fun n c => 10 * n + (c.toNat - 48)) n < Nat.pow 10 ds.length * (n + 1) := by
    intro ds
    induction ds with
    | nil =>
      intro n _
      show n < 1 * (n + 1)
      omega
    | cons c rest ih =>
      intro n hds
      rw [List.all_cons, Bool.and_eq_true] at hds
      have hc := digit_le hds.1
      have hrest := ih (10 * n + (c.toNat - 48)) hds.2
      have hstep : Nat.pow 10 rest.length * (10 * n + (c.toNat - 48) + 1) ≤
          Nat.pow 10 rest.length * (10 * (n + 1)) := Nat.mul_le_mul_left _ (by omega)
      have hpow : Nat.pow 10 (rest.length + 1) * (n + 1) =
          Nat.pow 10 rest.length * (10 * (n + 1)) := Nat.mul_assoc ..
      rw [List.foldl_cons, List.length_cons, hpow]
      exact Nat.lt_of_lt_of_le hrest hstep
  have := go ds 0 h
  rwa [Nat.zero_add, Nat.mul_one] at this

theorem length_toDigits_le_iff {n count : Nat} (h : 0 < count) :
    (Nat.toDigits 10 n).length ≤ count ↔ n < Nat.pow 10 count :=
  Nat.length_toDigits_le_iff (by decide) h

/-- No digits of the same value are fewer than those a number is written with. -/
theorem length_toDigits_le {ds : List Char} (h : ds.all isDigit = true) (hne : ds ≠ []) :
    (Nat.toDigits 10 (digitsValue ds)).length ≤ ds.length :=
  (length_toDigits_le_iff (List.length_pos_iff.mpr hne)).mpr (digitsValue_lt h)

end Text

/-! ## Short numbers -/

/-- A number that is read from few enough characters is short. -/
theorem isShort_signed {negative : Bool} {ds : List Char} (hd : ds.all isDigit = true)
    (hne : ds ≠ []) (h : Json.tooLong negative ds = false) :
    IsShort (Double.signed negative (digitsValue ds)) := by
  have hle := Text.length_toDigits_le hd hne
  unfold IsShort Json.tooLong Double.signed at *
  rw [decide_eq_false_iff_not] at h ⊢
  cases negative with
  | false =>
    have hpos : decide ((digitsValue ds : Int) < 0) = false := decide_eq_false (by omega)
    rw [if_neg (by decide), Int.natAbs_natCast, hpos]
    exact fun hlt => h (Nat.lt_of_lt_of_le hlt (Nat.add_le_add_right hle _))
  | true =>
    have hsign := Bool.toNat_le (decide (-(digitsValue ds : Int) < 0))
    rw [if_pos rfl, Int.natAbs_neg, Int.natAbs_natCast]
    exact fun hlt => h (Nat.lt_of_lt_of_le hlt (Nat.add_le_add hle hsign))

theorem isShort_natCast (n : Nat) : IsShort n ↔ n < digitBound := by
  have hneg : decide ((n : Int) < 0) = false := decide_eq_false (by omega)
  unfold IsShort Json.tooLong digitBound
  rw [decide_eq_false_iff_not, hneg, Int.natAbs_natCast, Bool.toNat_false, Nat.add_zero, Nat.not_lt,
    Text.length_toDigits_le_iff (by decide)]

/-- A number that is not below zero has no sign, so only its size matters. -/
theorem isShort_iff_lt {n : Int} (hn : 0 ≤ n) : IsShort n ↔ n < digitBound := by
  obtain ⟨m, rfl⟩ := Int.eq_ofNat_of_zero_le hn
  rw [isShort_natCast, Int.ofNat_lt]

end Cadence
