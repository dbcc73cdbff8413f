/-
  How numbers are READ.

  A WHOLE number is an optional sign and plain digits; blanks may surround it.  The four
  information separators are blanks to the grammar but not to the reader of digits, and a number
  of more than 4300 digits is not read at all; both are faults of their own, not refusals.

  A REAL number is an optional sign, digits of any script with an optional point among them, and an
  optional exponent; single underscores may stand between digits, and the words for infinity and
  for the undefined number are read in any case.  The value is the closest real.
-/
import Cadence.Number.Double
import Cadence.Text.Blank
import Cadence.Text.Digit
import Cadence.Text.Quoted

namespace Cadence

open Text

/-! ## Whole numbers -/

/-- A sign, if one is in front: is it a minus, and what follows. -/
def splitSign : List Char → Bool × List Char
  | '-' :: rest => (true, rest)
  | '+' :: rest => (false, rest)
  | cs => (false, cs)

/-- The sign and the digits of a whole number, if the text has the form of one. -/
def wholeForm? (token : String) : Option (Bool × List Char) :=
  let (negative, ds) := splitSign (trimBy isBlank token.toList)
  if ds.isEmpty ∨ !ds.all isDigit then none else some (negative, ds)

/-- The whole number of sign and digits that were found in a text.  A separator in front stops the
reader before the digits are counted, one behind after it. -/
def readWhole (token : String) (negative : Bool) (ds : List Char) : Except NumberFault Int :=
  let around := token.toList.filter isBlank
  let front := token.toList.takeWhile isBlank
  let shown := String.ofList ((quoted token).toList.take 200)
  if front.any isSeparator then .error (.surrounded shown)
  else if digitLimit < ds.length then .error (.tooLong ds.length)
  else if around.any isSeparator then .error (.surrounded shown)
  else .ok (Double.signed negative (digitsValue ds))

/-- The value of a text that is wholly hexadecimal digits. -/
def hexForm? (ds : List Char) : Option Nat :=
  if ds.isEmpty ∨ !ds.all isHexDigit then none else some (hexDigitsValue ds)

/-! ## Numbers given by people

  Where a number is given outside a script, digits of any script are read, and single underscores
  may stand between them. -/

/-- A character as the reader of reals sees it: digits of any script are plain digits, and a blank
that is not a plain character is a plain blank. -/
def plainChar (c : Char) : Char :=
  if c.toNat < 127 then c
  else if isBlank c then ' '
  else match digitValue? c with
    | some d => Char.ofNat (48 + d)
    | none => c

/-- A text without the underscores between its digits; an underscore elsewhere is an error.  The
first argument says whether a digit came just before. -/
def dropUnderscores : Bool → List Char → Option (List Char)
  | _, [] => some []
  | after, '_' :: rest =>
    match rest with
    | c :: _ => if after && isDigit c then dropUnderscores false rest else none
    | [] => none
  | _, c :: rest => (dropUnderscores (isDigit c) rest).map (c :: ·)

/-- The whole number that a text gives. -/
def givenInt? (token : String) : Option Int :=
  let cs := trimBy isMargin (token.toList.map plainChar)
  (dropUnderscores false cs).bind fun cs =>
    let (negative, ds) := splitSign cs
    if ds.isEmpty ∨ !ds.all isDigit ∨ digitLimit < ds.length then none
    else some (Double.signed negative (digitsValue ds))

/-! ## Real numbers -/

/-- The exponent at the end of a real number: nothing, or a mark, a sign and digits. -/
def exponent? : List Char → Option Int
  | [] => some 0
  | c :: rest =>
    if c = 'e' ∨ c = 'E' then
      let (negative, ds) := splitSign rest
      if ds.isEmpty ∨ !ds.all isDigit then none
      else some (Double.signed negative (digitsValue ds))
    else none

/-- The real closest to `mantissa` times ten to the power `exponent`.  A number whose leading digit
is far outside the range of the reals is decided by its size alone. -/
def scaled (negative : Bool) (mantissa : Nat) (exponent : Int) : Float :=
  let size : Int := (Nat.toDigits 10 mantissa).length + exponent
  if mantissa = 0 ∨ size < -400 then Double.withSign negative 0
  else if 400 < size then Double.withSign negative Double.infinityBits
  else Double.nearest negative (mantissa * Nat.pow 10 exponent.toNat) (Nat.pow 10 (-exponent).toNat)

/-- The real of an unsigned decimal text. -/
def unsignedReal? (negative : Bool) (cs : List Char) : Option Float :=
  let word := cs.map Char.toLower
  if word = "inf".toList ∨ word = "infinity".toList then
    some (Double.withSign negative Double.infinityBits)
  else if word = "nan".toList then some (Double.withSign negative Double.undefinedBits)
  else
    let before := cs.takeWhile isDigit
    let rest := cs.dropWhile isDigit
    let after := match rest with
      | '.' :: more => more.takeWhile isDigit
      | _ => []
    let tail := match rest with
      | '.' :: more => more.dropWhile isDigit
      | _ => rest
    if before.isEmpty && after.isEmpty then none
    else (exponent? tail).map fun e =>
      scaled negative (digitsValue (before ++ after)) (e - after.length)

/-- The real number that a text writes. -/
def real? (token : String) : Option Float :=
  let cs := trimBy isMargin (token.toList.map plainChar)
  (dropUnderscores false cs).bind fun ds => Function.uncurry unsignedReal? (splitSign ds)

example : (real? " 1_0.5e-1 ").map Float.toBits = some (1.05 : Float).toBits := by decide +kernel
example : givenInt? "+1_0 " = some 10 ∧ givenInt? "_1" = none ∧ givenInt? "1.5" = none := by
  decide +kernel
example : (real? "1__0").isNone ∧ (real? ".").isNone ∧ (real? "\x1c1").isNone := by decide +kernel

end Cadence
