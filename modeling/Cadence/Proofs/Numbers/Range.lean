/-
  RANGE — from which whole number on there is no real.

  A whole number is brought to the closest real, a tie to the one with the even last bit.  Beyond the
  largest real the closest one is infinity, and then the number is too large.

  1. **The crux** — the tie between the largest real and infinity goes to infinity, for the last bit
     of the largest is odd.  So an even number of units is reached from half a unit below it on
     (`le_roundQuotient_iff`).
  2. **The bits** — a whole number of 53 bits or more is rounded in units of its 53rd bit, and a
     carry out of the 53 bits moves the exponent up by itself (`nearestBits_one`); one of fewer
     bits is exact.
  3. **The bound** (`ofInt?_eq_error_iff`) — `firstBeyond`, half a unit behind the largest real.
-/
import Mathlib.Tactic.Ring
import Cadence.Number.Double

namespace Cadence

namespace Double

/-- A quotient reaches an even whole number by rounding from half a unit below it on: the tie is
rounded up, since the neighbour below is odd. -/
theorem le_roundQuotient_iff {goal num den : Nat} (heven : goal % 2 = 0) (hden : 0 < den) :
    goal ≤ roundQuotient num den ↔ 2 * goal * den ≤ 2 * num + den := by
  have hsplit := Nat.div_add_mod num den
  have hmod := Nat.mod_lt num hden
  have below : ∀ {a b : Nat}, a ≤ b → den * a ≤ den * b := Nat.mul_le_mul_left den
  have hgoal : 2 * goal * den = 2 * (den * goal) := by ring
  simp only [roundQuotient, hgoal]
  generalize num / den = q at *
  generalize num % den = r at *
  rcases Nat.lt_trichotomy goal (q + 1) with hlt | rfl | hgt
  · have hle := below (Nat.le_of_lt_succ hlt)
    split
    · omega
    · omega
  · have hstep : den * (q + 1) = den * q + den := by ring
    have hodd : q % 2 = 1 := by omega
    split
    · omega
    · omega
  · have hle := below (show q + 1 + 1 ≤ goal by omega)
    have hstep : den * (q + 1 + 1) = den * q + den + den := by ring
    split
    · omega
    · omega

theorem floorLog_one {n : Nat} (hn : n ≠ 0) : floorLog n 1 = n.log2 := by
  have hone : Nat.log2 1 = 0 := by decide
  have hreached : 1 * Nat.pow 2 (n.log2 : Int).toNat ≤ n := by
    rw [Nat.one_mul, Int.toNat_natCast]
    exact Nat.log2_self_le hn
  simp only [floorLog, hone, Int.natCast_zero, Int.sub_zero, Int.natCast_nonneg, if_true, hreached]

/-- The bits of a whole number of at least 53 bits. -/
theorem nearestBits_one {n : Nat} (h : 52 ≤ n.log2) :
    nearestBits n 1 =
      min ((n.log2 + 1022) * 2 ^ 52 + roundQuotient n (2 ^ (n.log2 - 52))) infinityBits := by
  have hn : n ≠ 0 := by
    rintro rfl
    exact absurd h (by decide)
  have hmax : max ((n.log2 : Int) - 52) (-1074) = ((n.log2 - 52 : Nat) : Int) := by omega
  have hsum : ((n.log2 - 52 : Nat) : Int) + 1074 = ((n.log2 + 1022 : Nat) : Int) := by omega
  simp only [nearestBits, if_neg hn, floorLog_one hn, hmax, hsum, Int.natCast_nonneg, if_true,
    Int.toNat_natCast, Nat.one_mul, Nat.pow_eq]

/-- A quotient of fewer than 54 bits keeps below the bits of three binades by rounding. -/
theorem roundQuotient_lt {num den : Nat} (h : num < 2 ^ 53 * den) :
    roundQuotient num den < 3 * 2 ^ 52 := by
  have hden : 0 < den := by
    rcases Nat.eq_zero_or_pos den with rfl | hden
    · exact absurd h (Nat.not_lt_zero num)
    · exact hden
  rw [← Nat.not_le, le_roundQuotient_iff (by decide) hden]
  omega

/-- A whole number that is small enough has the bits of a real. -/
theorem nearestBits_one_lt {n : Nat} (h : n.log2 < 1023) : nearestBits n 1 < infinityBits := by
  by_cases hbits : 52 ≤ n.log2
  · have hlt : n < 2 ^ 53 * 2 ^ (n.log2 - 52) := by
      calc n < 2 ^ (n.log2 + 1) := Nat.lt_log2_self
        _ = 2 ^ 53 * 2 ^ (n.log2 - 52) := by rw [← Nat.pow_add]; congr 1; omega
    have hq := roundQuotient_lt hlt
    rw [nearestBits_one hbits]
    simp only [infinityBits, Nat.pow_eq]
    omega
  · by_cases hn : n = 0
    · rw [hn]
      decide
    · have hmax : max ((n.log2 : Int) - 52) (-1074) = (n.log2 : Int) - 52 := by omega
      have hneg : ¬ (0 : Int) ≤ (n.log2 : Int) - 52 := by omega
      have hshift : (-((n.log2 : Int) - 52)).toNat = 52 - n.log2 := by omega
      have hsum : ((n.log2 : Int) - 52 + 1074).toNat = n.log2 + 1022 := by omega
      have hlt : n * 2 ^ (52 - n.log2) < 2 ^ 53 * 1 := by
        calc n * 2 ^ (52 - n.log2)
            < 2 ^ (n.log2 + 1) * 2 ^ (52 - n.log2) :=
              Nat.mul_lt_mul_of_pos_right Nat.lt_log2_self (Nat.two_pow_pos _)
          _ = 2 ^ 53 * 1 := by rw [← Nat.pow_add, Nat.mul_one]; congr 1; omega
      have hq := roundQuotient_lt hlt
      simp only [nearestBits, if_neg hn, floorLog_one hn, hmax, if_neg hneg, hshift, hsum,
        Nat.pow_eq, infinityBits]
      omega

/-- The first whole number that is not rounded to a real: half a unit of the last place beyond the
largest one, where the tie goes to infinity. -/
def firstBeyond : Nat := 2 ^ 1024 - 2 ^ 970

theorem firstBeyond_eq {k : Nat} (hk : k = 970) : firstBeyond = (2 ^ 54 - 1) * 2 ^ k := by
  rw [hk]
  decide +kernel

/-- **The range of the reals ends half a unit beyond the largest real**, for whole numbers. -/
theorem nearestBits_one_eq_infinityBits_iff {n : Nat} :
    nearestBits n 1 = infinityBits ↔ firstBeyond ≤ n := by
  obtain ⟨k, hk⟩ : ∃ k, k = 970 := ⟨970, rfl⟩
  rw [firstBeyond_eq hk]
  by_cases hfew : n.log2 < 1023
  · have hlt : n < 2 ^ 53 * 2 ^ k := by
      calc n < 2 ^ (n.log2 + 1) := Nat.lt_log2_self
        _ ≤ 2 ^ (53 + k) := Nat.pow_le_pow_right (by decide) (by omega)
        _ = 2 ^ 53 * 2 ^ k := Nat.pow_add ..
    exact iff_of_false (Nat.ne_of_lt (nearestBits_one_lt hfew)) (by omega)
  · have hn : n ≠ 0 := by
      rintro rfl
      exact hfew (by decide)
    have hsplit : 2 ^ 52 * 2 ^ (n.log2 - 52) ≤ n := by
      calc 2 ^ 52 * 2 ^ (n.log2 - 52) = 2 ^ n.log2 := by rw [← Nat.pow_add]; congr 1; omega
        _ ≤ n := Nat.log2_self_le hn
    have hbits : nearestBits n 1 = infinityBits ↔
        2047 * 2 ^ 52 ≤ (n.log2 + 1022) * 2 ^ 52 + roundQuotient n (2 ^ (n.log2 - 52)) := by
      rw [nearestBits_one (by omega)]
      simp only [infinityBits, Nat.pow_eq]
      omega
    rw [hbits]
    rcases Nat.eq_or_lt_of_le (Nat.not_lt.mp hfew) with hlast | hmore
    · -- the largest numbers of 1024 bits round up to the binade of infinity
      have hden : 2 ^ (n.log2 - 52) = 2 * 2 ^ k := by
        rw [← Nat.pow_succ']
        congr 1
        omega
      have hcarry : 2 ^ 53 ≤ roundQuotient n (2 ^ (n.log2 - 52)) ↔ _ :=
        le_roundQuotient_iff (by decide) (Nat.two_pow_pos _)
      rw [hden] at hcarry ⊢
      omega
    · have hq : 2 ^ 52 ≤ roundQuotient n (2 ^ (n.log2 - 52)) :=
        (le_roundQuotient_iff (by decide) (Nat.two_pow_pos _)).mpr (by omega)
      have hge : 2 ^ 54 * 2 ^ k ≤ n := by
        calc 2 ^ 54 * 2 ^ k = 2 ^ (54 + k) := (Nat.pow_add ..).symm
          _ ≤ 2 ^ n.log2 := Nat.pow_le_pow_right (by decide) (by omega)
          _ ≤ n := Nat.log2_self_le hn
      exact iff_of_true (by omega) (by omega)

/-- A whole number is too large for a real exactly from there on, on either side. -/
theorem ofInt?_eq_error_iff {n : Int} {f : NumberFault} :
    ofInt? n = .error f ↔ firstBeyond ≤ n.natAbs ∧ f = .tooLarge := by
  rw [← nearestBits_one_eq_infinityBits_iff]
  by_cases h : nearestBits n.natAbs 1 = infinityBits
  · simp only [ofInt?, h, if_true, true_and, Except.error.injEq, eq_comm]
  · simp only [ofInt?, h, if_false, false_and, reduceCtorEq]

end Double

end Cadence
