/-
  LINES of a text file.

  A carriage return, with or without a line feed after it, ends a line as a line feed does.  So do
  the vertical tab, the form feed, the separators U+001C to U+001E, the next-line control and the
  two separators U+2028 and U+2029.  What follows the last line end is a line only when it holds
  something.
-/
namespace Cadence.Text

/-- Every carriage return becomes a line feed, and takes a line feed after it along. -/
def unifyEnds : List Char → List Char
  | [] => []
  | '\r' :: '\n' :: rest => '\n' :: unifyEnds rest
  | c :: rest => (if c = '\r' then '\n' else c) :: unifyEnds rest

/-- Does this character end a line? -/
def isLineEnd (c : Char) : Bool :=
  (0xA ≤ c.toNat && c.toNat ≤ 0xD) || (0x1C ≤ c.toNat && c.toNat ≤ 0x1E) || c.toNat == 0x85
    || c.toNat == 0x2028 || c.toNat == 0x2029

/-- The lines of a text whose ends are unified; `line` holds, last first, what is read of the
current one. -/
def splitLines (line : List Char) : List Char → List (List Char)
  | [] => if line.isEmpty then [] else [line.reverse]
  | c :: rest =>
    if isLineEnd c then line.reverse :: splitLines [] rest else splitLines (c :: line) rest

/-- The lines of a text, without their ends. -/
def lines (s : String) : List String :=
  (splitLines [] (unifyEnds s.toList)).map String.ofList

example : lines "a\r\nb\rc\x0bd\n" = ["a", "b", "c", "d"] := by decide +kernel
example : lines "" = [] ∧ lines "\n\nx" = ["", "", "x"] := by decide +kernel

end Cadence.Text
