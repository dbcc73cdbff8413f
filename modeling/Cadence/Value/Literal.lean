/-
  LITERALS — reading the text of a token as a value.

  A whole number of a given width is written in decimal, with blanks around it if need be, and must
  lie in the range of the width; or in hexadecimal after a lower-case `0x`, and then stands for the
  bits of its two's complement, so that a signed number wraps.  A real is a decimal number or one of
  the words for infinity and for the undefined number.  A truth value is one of two words in any
  case.

  A text that writes no value of the wanted kind is refused with a script error at the token's
  site.  Two whole numbers that ARE written but cannot be had are troubles of their own: one with
  too many digits, and one among information separators.
-/
import Cadence.Fault
import Cadence.Number.Reading

namespace Cadence

open Text

namespace Literal

/-- The shape of a whole number in storage. -/
structure Width where
  /-- The number of bits. -/
  bits : Nat
  /-- Does the uppermost bit count negative? -/
  signed : Bool
deriving Repr, DecidableEq

/-- How many numbers a width has. -/
def Width.count (w : Width) : Nat := Nat.pow 2 w.bits

/-- Half of the numbers of a width. -/
def Width.half (w : Width) : Nat := Nat.pow 2 (w.bits - 1)

/-- The least number of a width. -/
def Width.least (w : Width) : Int := if w.signed then -w.half else 0

/-- The first number beyond a width. -/
def Width.limit (w : Width) : Int := if w.signed then w.half else w.count

/-- Signed numbers of 32 bits. -/
def int32 : Width := ⟨32, true⟩

/-- Unsigned numbers of 32 bits. -/
def uint32 : Width := ⟨32, false⟩

/-- Unsigned numbers of 16 bits. -/
def uint16 : Width := ⟨16, false⟩

/-- The number whose bits are those of `v`, if they fit the width. -/
def Width.ofBits? (w : Width) (v : Nat) : Option Int :=
  if v < w.count then some (if w.signed ∧ w.half ≤ v then (v : Int) - w.count else v) else none

/-- A number of the width, if it is one. -/
def Width.check? (w : Width) (v : Int) : Option Int :=
  if w.least ≤ v ∧ v < w.limit then some v else none

/-- The hexadecimal digits of a token: what follows a leading `0x`. -/
def hexDigits? (token : String) : Option (List Char) :=
  match token.toList with
  | '0' :: 'x' :: rest => some rest
  | _ => none

/-- The whole number of a width that a token writes, if it writes one. -/
def whole? (w : Width) (token : String) : Except NumberFault (Option Int) :=
  match hexDigits? token with
  | some ds => .ok ((hexForm? ds).bind w.ofBits?)
  | none =>
    match wholeForm? token with
    | none => .ok none
    | some (negative, ds) => (readWhole token negative ds).map w.check?

/-- Turns the absence of a value into a refusal of the token. -/
def orRefuse {α : Type} (reading : Reading) (token : Option String) (site : Option Site) :
    Option α → Except Fault α
  | some v => .ok v
  | none => .error (.at site (.notConvertible reading token))

/-- The whole number of a width that a token writes. -/
def toWhole (w : Width) (reading : Reading) (token : Option String) (site : Option Site) :
    Except Fault Int :=
  match token with
  | none => orRefuse reading none site none
  | some t =>
    match whole? w t with
    | .ok v => orRefuse reading token site v
    | .error fault => .error (.trouble (.number fault))

/-- A token as a signed number of 32 bits. -/
def toInt (token : Option String) (site : Option Site) : Except Fault Int :=
  toWhole int32 .int token site

/-- A token as an unsigned number of 32 bits. -/
def toUInt (token : Option String) (site : Option Site) : Except Fault Int :=
  toWhole uint32 .uint token site

/-- A token as an unsigned number of 16 bits. -/
def toUShort (token : Option String) (site : Option Site) : Except Fault Int :=
  toWhole uint16 .ushort token site

/-- A token as a real. -/
def toDouble (token : Option String) (site : Option Site) : Except Fault Float :=
  orRefuse .double token site (token.bind real?)

/-- The truth value that a word stands for. -/
def truth? (token : String) : Option Bool :=
  let word := fold (trim token)
  if word = "true" then some true else if word = "false" then some false else none

/-- A token as a truth value. -/
def toBool (token : Option String) (site : Option Site) : Except Fault Bool :=
  orRefuse .bool token site (token.bind truth?)

/-! ## Readings of the definitions -/

/-- A width of at least one bit has two halves. -/
theorem Width.count_eq_two_mul_half {w : Width} (hw : 0 < w.bits) : w.count = 2 * w.half := by
  obtain ⟨bits, sgn⟩ := w
  obtain ⟨b, rfl⟩ : ∃ b, bits = b + 1 := ⟨bits - 1, by simp only at hw; omega⟩
  simp only [count, half, Nat.add_sub_cancel, Nat.pow_eq, Nat.pow_succ]
  omega

/-- A number taken from bits lies in the range of its width. -/
theorem Width.ofBits?_inRange {w : Width} (hw : 0 < w.bits) {v : Nat} {n : Int}
    (h : w.ofBits? v = some n) : w.least ≤ n ∧ n < w.limit := by
  have hc := count_eq_two_mul_half hw
  simp only [ofBits?] at h
  split at h
  · simp only [Option.some.injEq] at h
    simp only [least, limit]
    cases hs : w.signed <;>
      simp only [hs, Bool.false_eq_true, false_and, true_and, if_false, if_true] at h ⊢
    · omega
    · split at h <;> omega
  · simp at h

/-- A checked number is the number itself, in the range of the width. -/
theorem Width.check?_eq_some_iff {w : Width} {v n : Int} :
    w.check? v = some n ↔ n = v ∧ w.least ≤ v ∧ v < w.limit := by
  simp only [check?]
  split
  · next h => simp [h, eq_comm]
  · next h => simp; intro _; omega

example : (whole? int32 "0xFFFFFFFF").toOption = some (some (-1)) := by decide +kernel
example : (whole? uint32 " +12 ").toOption = some (some 12) := by decide +kernel
example : (whole? uint32 "-1").toOption = some none := by decide +kernel
example : (whole? uint16 "0x10000").toOption = some none := by decide +kernel

end Literal

end Cadence
