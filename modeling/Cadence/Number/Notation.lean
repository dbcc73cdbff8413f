/-
  How numbers are WRITTEN.

  A real is written with the fewest digits that read back: with a decimal point where its leading
  digit stands between the fourth place after the point and the sixteenth before it, otherwise with
  one digit before the point and a signed exponent of at least two digits.  Whole reals keep a zero
  after the point in this notation; `plainReal` drops it and writes every digit.
-/
import Cadence.Number.Shortest

namespace Cadence

/-- The decimal digits of a whole number, with a minus sign where needed. -/
def intText (n : Int) : String :=
  if n < 0 then "-" ++ (Nat.repr n.natAbs) else Nat.repr n.natAbs

/-- The decimal digits of a whole number, if they are few enough to be written. -/
def writeInt (n : Int) : Except NumberFault String :=
  if digitLimit < (Nat.toDigits 10 n.natAbs).length then .error .unwritable else .ok (intText n)

/-- The hexadecimal text of a whole number: an optional minus sign, then `0x` and the digits. -/
def hexText (n : Int) : String :=
  (if n < 0 then "-0x" else "0x") ++ String.ofList (Nat.toDigits 16 n.natAbs)

/-- The layout of a positive decimal: its digits, and the power of ten of the last of them. -/
def layout (digits : Nat) (last : Int) : List Char :=
  let ds := Nat.toDigits 10 digits
  let count : Int := ds.length
  let leading := last + count - 1
  if leading < -4 ∨ 16 ≤ leading then
    let tail := if ds.tail.isEmpty then [] else '.' :: ds.tail
    let power := Nat.toDigits 10 leading.natAbs
    let padded := if power.length < 2 then '0' :: power else power
    ds.take 1 ++ tail ++ 'e' :: (if leading < 0 then '-' else '+') :: padded
  else if 0 ≤ last then ds ++ List.replicate last.toNat '0' ++ ['.', '0']
  else if 0 ≤ leading then
    ds.take (leading + 1).toNat ++ '.' :: ds.drop (leading + 1).toNat
  else '0' :: '.' :: (List.replicate (-leading - 1).toNat '0' ++ ds)

/-- The text of a real: the fewest digits that read back. -/
def realText (x : Float) : String :=
  match Double.ofFloat x with
  | .undefined => "nan"
  | .infinite negative => if negative then "-inf" else "inf"
  | .finite negative m e =>
    let digits := if m = 0 then ['0', '.', '0'] else Function.uncurry layout (Shortest.digits m e)
    String.ofList (if negative then '-' :: digits else digits)

/-- The text of a real as a word of a script: a whole real has no point and all its digits. -/
def plainReal (x : Float) : String :=
  match (Double.ofFloat x).whole? with
  | some n => intText n
  | none => realText x

example : realText 0.1 = "0.1" ∧ realText (-0.0) = "-0.0" ∧ realText 5e-324 = "5e-324" := by
  decide +kernel
example : realText 1e16 = "1e+16" ∧ realText 123456.0 = "123456.0" := by decide +kernel
example : realText 1.5e-7 = "1.5e-07" ∧ realText 0.0001 = "0.0001" := by decide +kernel
example : plainReal 1e22 = "10000000000000000000000" ∧ plainReal (-0.0) = "0" := by decide +kernel
example : hexText (-16) = "-0x10" := by decide +kernel

end Cadence
