/-
  QUOTED text — a text written so that it can be told apart from its surroundings.

  A text stands between single quotes; only one that holds a single quote and no double quote
  stands between double quotes.  The backslash and the surrounding quote are written with a
  backslash, the tab and the line ends by their letters, and every other character that is not
  printed as itself by its code point in two, four or eight hexadecimal digits.
-/
import Cadence.Text.Printable

namespace Cadence.Text

/-- The lower-case hexadecimal digits of a number, at least `width` of them. -/
def hexPadded (width n : Nat) : List Char :=
  let ds := Nat.toDigits 16 n
  List.replicate (width - ds.length) '0' ++ ds

/-- How one character is written between the given quotes. -/
def quotedChar (quote c : Char) : List Char :=
  if c = quote ∨ c = '\\' then ['\\', c]
  else if c = '\t' then ['\\', 't']
  else if c = '\n' then ['\\', 'n']
  else if c = '\r' then ['\\', 'r']
  else if isPrintable c then [c]
  else if c.toNat < 0x100 then '\\' :: 'x' :: hexPadded 2 c.toNat
  else if c.toNat < 0x10000 then '\\' :: 'u' :: hexPadded 4 c.toNat
  else '\\' :: 'U' :: hexPadded 8 c.toNat

/-- The quote that surrounds a text. -/
def quoteFor (cs : List Char) : Char := if '\'' ∈ cs ∧ '"' ∉ cs then '"' else '\''

/-- A text between quotes, on one line and with no hidden characters. -/
def quoted (s : String) : String :=
  let q := quoteFor s.toList
  String.ofList (q :: s.toList.flatMap (quotedChar q) ++ [q])

example : quoted "it's" = "\"it's\"" := by decide +kernel
example : quoted "a\tb\x01\u00e9" = "'a\\tb\\x01\u00e9'" := by decide +kernel

end Cadence.Text
