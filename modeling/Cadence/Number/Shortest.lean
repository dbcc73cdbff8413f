/-
  The SHORTEST decimal that reads back.

  Around every real lies the interval of the numbers that round to it.  A decimal grid is the set
  of the multiples of one power of ten; going from coarse grids to fine ones, the first grid with a
  point inside the interval gives the fewest digits, and of the two points next to the real the
  closer one is taken, a tie to the even one.  All comparisons are between whole numbers: the real,
  both ends of its interval and the grid are brought to one denominator.
-/
import Cadence.Number.Double

namespace Cadence.Shortest

/-- A positive real between the ends of the interval of numbers that round to it, all three over
one denominator. -/
structure Interval where
  /-- The lower end. -/
  low : Nat
  /-- The real itself. -/
  value : Nat
  /-- The upper end. -/
  high : Nat
  /-- The common denominator. -/
  denominator : Nat
  /-- Do the ends themselves round to the real? -/
  closed : Bool
deriving Repr

/-- The interval of `mantissa` times two to the power `exponent`.  Below a power of two the next
real is only half as far away as above it. -/
def interval (mantissa : Nat) (exponent : Int) : Interval :=
  let halved := mantissa = Nat.pow 2 52 ∧ -1074 < exponent
  let e := exponent - 2
  let scale := Nat.pow 2 e.toNat
  { low := (if halved then 4 * mantissa - 1 else 4 * mantissa - 2) * scale
    value := 4 * mantissa * scale
    high := (4 * mantissa + 2) * scale
    denominator := Nat.pow 2 (-e).toNat
    closed := mantissa % 2 = 0 }

/-- Does the decimal `digits` times ten to the power `exponent` round to the real? -/
def Interval.holds (i : Interval) (digits : Nat) (exponent : Int) : Bool :=
  let point := digits * Nat.pow 10 exponent.toNat * i.denominator
  let unit := Nat.pow 10 (-exponent).toNat
  if i.closed then i.low * unit ≤ point && point ≤ i.high * unit
  else i.low * unit < point && point < i.high * unit

/-- The closer of the real's two neighbours on a grid, among those that round to the real. -/
def Interval.onGrid? (i : Interval) (exponent : Int) : Option Nat :=
  let step := Nat.pow 10 exponent.toNat * i.denominator
  let value := i.value * Nat.pow 10 (-exponent).toNat
  let below := value / step
  let above := below + 1
  let surplus := value % step
  match i.holds below exponent && 0 < below, i.holds above exponent with
  | true, true =>
    if 2 * surplus < step ∨ (2 * surplus = step ∧ below % 2 = 0) then some below else some above
  | true, false => some below
  | false, true => some above
  | false, false => none

/-- The first hit on the grids from ten to the power `exponent` downwards. -/
def Interval.search (i : Interval) : (grids : Nat) → (exponent : Int) → Option (Nat × Int)
  | 0, _ => none
  | grids + 1, exponent =>
    match i.onGrid? exponent with
    | some digits => some (digits, exponent)
    | none => i.search grids (exponent - 1)

/-- A grid that is coarser than a positive real. -/
def coarse (mantissa : Nat) (exponent : Int) : Int :=
  ((mantissa.log2 : Int) + exponent + 1) * 30103 / 100000 + 2

/-- The fewest digits that read back, with the power of ten of the last of them.  Seventeen digits
always suffice, so the search ends well within its twenty-four grids. -/
def digits (mantissa : Nat) (exponent : Int) : Nat × Int :=
  ((interval mantissa exponent).search 24 (coarse mantissa exponent)).getD (mantissa, exponent)

/-! ## Readings of the definitions -/

/-- What is found on a grid rounds to the real. -/
theorem holds_of_onGrid? {i : Interval} {e : Int} {d : Nat} (h : i.onGrid? e = some d) :
    i.holds d e = true := by
  simp only [Interval.onGrid?] at h
  split at h
  · split at h <;> simp_all
  · simp_all
  · simp_all
  · simp_all

/-- What the search returns rounds to the real. -/
theorem holds_of_search {i : Interval} {n : Nat} {e : Int} {r : Nat × Int}
    (h : i.search n e = some r) : i.holds r.1 r.2 = true := by
  induction n generalizing e with
  | zero => simp [Interval.search] at h
  | succ n ih =>
    simp only [Interval.search] at h
    split at h
    · next d hd => simp only [Option.some.injEq] at h; subst h; exact holds_of_onGrid? hd
    · exact ih h

example : digits 1 (-1074) = (5, -324) := by decide +kernel
example : digits (3 * 2 ^ 51) (-52) = (15, -1) := by decide +kernel

end Cadence.Shortest
