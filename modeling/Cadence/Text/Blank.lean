/-
  BLANKS — the characters that separate words and may surround a literal.

  The set is larger than the blank, the tab and the line ends: it holds the four information
  separators U+001C to U+001F, the next-line control and the space separators of every script.
  It holds no character of zero width.  `trim` removes blanks from both ends of a text.
-/
namespace Cadence.Text

/-- The ranges of the blank characters, ascending. -/
def blankRanges : List (Nat × Nat) :=
  [(0x9, 0xD), (0x1C, 0x20), (0x85, 0x85), (0xA0, 0xA0), (0x1680, 0x1680), (0x2000, 0x200A),
   (0x2028, 0x2029), (0x202F, 0x202F), (0x205F, 0x205F), (0x3000, 0x3000)]

/-- Is this character a blank? -/
def isBlank (c : Char) : Bool := blankRanges.any fun r => r.1 ≤ c.toNat && c.toNat ≤ r.2

/-- The four information separators: blanks that a number may not have around its digits. -/
def isSeparator (c : Char) : Bool := 0x1C ≤ c.toNat && c.toNat ≤ 0x1F

/-- The blanks that a number may have around its digits. -/
def isMargin (c : Char) : Bool := isBlank c && !isSeparator c

/-- A list of characters without those at its ends that satisfy the test. -/
def trimBy (p : Char → Bool) (cs : List Char) : List Char :=
  ((cs.dropWhile p).reverse.dropWhile p).reverse

/-- A text without the blanks at its ends. -/
def trim (s : String) : String := String.ofList (trimBy isBlank s.toList)

/-- Lower case for comparison with a word of plain letters.  Beside the letters `A` to `Z` only the
Kelvin sign has a plain letter as its lower case; every other character stays what it is, and
could not make the text equal to such a word. -/
def fold (s : String) : String :=
  String.ofList (s.toList.map fun c => if c.toNat = 0x212A then 'k' else c.toLower)

/-! ## Readings of the definitions -/

/-- What core calls whitespace is blank. -/
theorem isBlank_of_isWhitespace {c : Char} (h : c.isWhitespace = true) : isBlank c = true := by
  simp only [Char.isWhitespace, Bool.or_eq_true, decide_eq_true_eq] at h
  rcases h with ((h | h) | h) | h <;> subst h <;> decide

example : (blankRanges.map fun r => r.2 - r.1 + 1).sum = 29 := by decide
example : isBlank '\u00a0' = true ∧ isBlank '\u200b' = false ∧ isBlank '\ufeff' = false := by decide
example : trim " \t x y\n" = "x y" := by decide +kernel
example : fold "BAC\u212a" = "back" := by decide +kernel

end Cadence.Text
