/-
  REALS of double precision, taken apart and put together exactly.

  A finite real is a whole number of at most 53 bits times a power of two.  `Double.ofFloat` reads
  that pair off the bits, `nearest` goes the other way: it takes any positive quotient of whole
  numbers to the closest real, a tie to the one with the even last bit, and what lies too far out
  to infinity.  Everything between the two is arithmetic on whole numbers, so rounding, exact
  whole values and the fewest digits that read back are all decided without error.
-/
import Cadence.Number.Fault

namespace Cadence

/-- A real number as its bits describe it. -/
inductive Double where
  /-- Not a number. -/
  | undefined
  /-- Beyond every number, on one side or the other. -/
  | infinite (negative : Bool)
  /-- The whole number `mantissa` times two to the power `exponent`. -/
  | finite (negative : Bool) (mantissa : Nat) (exponent : Int)
deriving Repr, DecidableEq

namespace Double

/-- A real taken apart. -/
def ofFloat (x : Float) : Double :=
  let bits : Nat := x.toBits.toNat
  let negative := bits / Nat.pow 2 63 = 1
  let power : Nat := bits / Nat.pow 2 52 % Nat.pow 2 11
  let fraction : Nat := bits % Nat.pow 2 52
  if power = 2047 then
    if fraction = 0 then .infinite negative else .undefined
  else if power = 0 then .finite negative fraction (-1074)
  else .finite negative (Nat.pow 2 52 + fraction) ((power : Int) - 1075)

/-- The real with the given bits below its sign. -/
def withSign (negative : Bool) (bits : Nat) : Float :=
  Float.ofBits (UInt64.ofNat (if negative then Nat.pow 2 63 + bits else bits))

/-- The bits of positive infinity. -/
def infinityBits : Nat := 2047 * Nat.pow 2 52

/-- The bits of the undefined number. -/
def undefinedBits : Nat := infinityBits + Nat.pow 2 51

/-- A quotient rounded to a whole number, a tie to the even neighbour. -/
def roundQuotient (num den : Nat) : Nat :=
  let q := num / den
  let r := num % den
  if den < 2 * r ∨ (2 * r = den ∧ q % 2 = 1) then q + 1 else q

/-- The power of two at or below a positive quotient. -/
def floorLog (num den : Nat) : Int :=
  let k : Int := (num.log2 : Int) - den.log2
  let reached := if 0 ≤ k then den * Nat.pow 2 k.toNat ≤ num else den ≤ num * Nat.pow 2 (-k).toNat
  if reached then k else k - 1

/-- The bits of the real closest to `num / den`.  The exponent is chosen so that the rounded whole
number has 53 bits, or fewer where the exponent is already the least; a carry out of the 53 bits
moves the exponent up by itself. -/
def nearestBits (num den : Nat) : Nat :=
  if num = 0 then 0 else
  let e := max (floorLog num den - 52) (-1074)
  let q := if 0 ≤ e then roundQuotient num (den * Nat.pow 2 e.toNat)
    else roundQuotient (num * Nat.pow 2 (-e).toNat) den
  min ((e + 1074).toNat * Nat.pow 2 52 + q) infinityBits

/-- The real closest to a quotient. -/
def nearest (negative : Bool) (num den : Nat) : Float := withSign negative (nearestBits num den)

/-- The real closest to a whole number, if one is in range. -/
def ofInt? (n : Int) : Except NumberFault Float :=
  let bits := nearestBits n.natAbs 1
  if bits = infinityBits then .error .tooLarge else .ok (withSign (n < 0) bits)

/-- A whole number with a sign. -/
def signed (negative : Bool) (n : Nat) : Int := if negative then -n else n

/-- The first whole number that is too large for a signed word of 64 bits. -/
def wordLimit : Int := (Nat.pow 2 63 : Nat)

/-- The exact value of a real that is whole. -/
def whole? : Double → Option Int
  | .finite negative m e =>
    let unit := Nat.pow 2 (-e).toNat
    if 0 ≤ e then some (signed negative (m * Nat.pow 2 e.toNat))
    else if m % unit = 0 then some (signed negative (m / unit))
    else none
  | _ => none

/-- The whole number closest to a real, a tie to the even one. -/
def round : Double → Except NumberFault Int
  | .undefined => .error .undefined
  | .infinite _ => .error .infinite
  | .finite negative m e =>
    .ok (signed negative
      (if 0 ≤ e then m * Nat.pow 2 e.toNat else roundQuotient m (Nat.pow 2 (-e).toNat)))

/-! ## Readings of the definitions -/

/-- Rounding a quotient never errs by more than a half. -/
theorem roundQuotient_near (num den : Nat) (h : 0 < den) :
    2 * (roundQuotient num den * den) ≤ 2 * num + den ∧
      2 * num ≤ 2 * (roundQuotient num den * den) + den := by
  have e := Nat.div_add_mod num den
  have l := Nat.mod_lt num h
  simp only [roundQuotient]
  generalize num / den = q at *
  generalize num % den = r at *
  have hq : (q + 1) * den = den * q + den := by rw [Nat.add_mul, Nat.mul_comm]; simp
  have hq0 : q * den = den * q := Nat.mul_comm ..
  split
  · rw [hq]; omega
  · rw [hq0]; omega

example : ofFloat 1.5 = .finite false (3 * 2 ^ 51) (-52) := by decide +kernel
example : (ofFloat 1.5).whole? = none ∧ (ofFloat (-2.0)).whole? = some (-2) := by decide +kernel
example : nearestBits 1 10 = (0.1 : Float).toBits.toNat := by decide +kernel
example : nearestBits (2 ^ 1024) 1 = infinityBits ∧ nearestBits 1 (2 ^ 1075) = 0 := by
  decide +kernel

end Double

end Cadence
