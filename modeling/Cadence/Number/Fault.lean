/-
  What can be WRONG with a number beyond "this text is not one".

  These faults are not refusals of a script's text: they say that a number exists but cannot be
  had in the wanted form.
-/
namespace Cadence

/-- The number of decimal digits that a whole number may be read from and written with. -/
def digitLimit : Nat := 4300

/-- A number that cannot be had in the wanted form. -/
inductive NumberFault where
  /-- A whole number is written with more digits than are read. -/
  | tooLong (digits : Nat)
  /-- A whole number is surrounded by separators; the text is given as it is shown. -/
  | surrounded (text : String)
  /-- An infinite real has no whole number. -/
  | infinite
  /-- An undefined real has no whole number. -/
  | undefined
  /-- A whole number lies beyond the range of the reals. -/
  | tooLarge
  /-- A whole number has more digits than are written. -/
  | unwritable
deriving Repr, DecidableEq

/-- The wording of a number fault. -/
def NumberFault.message : NumberFault → String
  | .tooLong digits =>
    s!"Exceeds the limit ({digitLimit} digits) for integer string conversion: "
      ++ s!"value has {digits} digits; use sys.set_int_max_str_digits() to increase the limit"
  | .surrounded text => "invalid literal for int() with base 10: " ++ text
  | .infinite => "cannot convert float infinity to integer"
  | .undefined => "cannot convert float NaN to integer"
  | .tooLarge => "int too large to convert to float"
  | .unwritable =>
    s!"Exceeds the limit ({digitLimit} digits) for integer string conversion; "
      ++ "use sys.set_int_max_str_digits() to increase the limit"

end Cadence
