/-
  WRITING JSON.

  One layout serves every output: a part stands on a line of its own, two blanks further in than
  what holds it; an array or object without parts is written as two brackets.  The outputs differ in
  their characters: a style says how a character stands inside quotes.  The plain style escapes only
  what must be, the ASCII style everything that is not a printed ASCII character.
-/
import Cadence.Json.Basic
import Cadence.Number.Notation
import Cadence.Text.Quoted

namespace Cadence.Json

open Text

/-- The escape of a character by the code of one or two 16-bit units. -/
def unitEscape (c : Char) : List Char :=
  let unit (n : Nat) : List Char := '\\' :: 'u' :: hexPadded 4 n
  if c.toNat < 0x10000 then unit c.toNat
  else
    let n := c.toNat - 0x10000
    unit (0xD800 + n / 0x400) ++ unit (0xDC00 + n % 0x400)

/-- The escapes of one letter. -/
def letterEscapes : List (Char × Char) :=
  [('"', '"'), ('\\', '\\'), ('\x08', 'b'), ('\x0c', 'f'), ('\n', 'n'), ('\r', 'r'), ('\t', 't')]

/-- A character inside quotes, escaped only where it must be. -/
def plainEscape (c : Char) : List Char :=
  match letterEscapes.lookup c with
  | some e => ['\\', e]
  | none => if c.toNat < 0x20 then unitEscape c else [c]

/-- A character inside quotes, escaped wherever it is not a printed ASCII character. -/
def asciiEscape (c : Char) : List Char :=
  match letterEscapes.lookup c with
  | some e => ['\\', e]
  | none => if c.toNat < 0x20 ∨ 0x7E < c.toNat then unitEscape c else [c]

/-- A text between quotes. -/
def quotedWith (escape : Char → List Char) (s : String) : List Char :=
  '"' :: s.toList.flatMap escape ++ ['"']

/-- A line end and the blanks before a part that is nested `depth` times. -/
def newline (depth : Nat) : List Char := '\n' :: List.replicate (2 * depth) ' '

/-- The text of a real. -/
def realChars (x : Float) : List Char :=
  match Double.ofFloat x with
  | .undefined => "NaN".toList
  | .infinite negative => (if negative then "-Infinity" else "Infinity").toList
  | _ => (realText x).toList

mutual
/-- A value nested `depth` times. -/
def printAt (escape : Char → List Char) (depth : Nat) : Json → List Char
  | .null => "null".toList
  | .bool b => (if b then "true" else "false").toList
  | .int n => (intText n).toList
  | .real x => realChars x
  | .text s => quotedWith escape s
  | .array [] => ['[', ']']
  | .array (v :: rest) =>
    '[' :: newline (depth + 1) ++ printAt escape (depth + 1) v
      ++ printItems escape (depth + 1) rest ++ newline depth ++ [']']
  | .object [] => ['\x7b', '\x7d']
  | .object ((k, v) :: rest) =>
    '\x7b' :: newline (depth + 1) ++ quotedWith escape k ++ ':' :: ' '
      :: printAt escape (depth + 1) v ++ printMembers escape (depth + 1) rest
      ++ newline depth ++ ['\x7d']

/-- The items of an array after the first, each behind a comma. -/
def printItems (escape : Char → List Char) (depth : Nat) : List Json → List Char
  | [] => []
  | v :: rest =>
    ',' :: newline depth ++ printAt escape depth v ++ printItems escape depth rest

/-- The members of an object after the first, each behind a comma. -/
def printMembers (escape : Char → List Char) (depth : Nat) : List (String × Json) → List Char
  | [] => []
  | (k, v) :: rest =>
    ',' :: newline depth ++ quotedWith escape k ++ ':' :: ' ' :: printAt escape depth v
      ++ printMembers escape depth rest
end

/-- A value with a part on each line, escaped only where it must be. -/
def print (v : Json) : String := String.ofList (printAt plainEscape 0 v)

/-- A value with a part on each line, in ASCII characters. -/
def printAscii (v : Json) : String := String.ofList (printAt asciiEscape 0 v)

mutual
/-- A value on one line, without blanks, in ASCII characters. -/
def lineChars : Json → List Char
  | .null => "null".toList
  | .bool b => (if b then "true" else "false").toList
  | .int n => (intText n).toList
  | .real x => realChars x
  | .text s => quotedWith asciiEscape s
  | .array items => '[' :: lineItems items ++ [']']
  | .object members => '\x7b' :: lineMembers members ++ ['\x7d']

/-- The items of an array with commas between. -/
def lineItems : List Json → List Char
  | [] => []
  | [v] => lineChars v
  | v :: rest => lineChars v ++ ',' :: lineItems rest

/-- The members of an object with commas between. -/
def lineMembers : List (String × Json) → List Char
  | [] => []
  | [(k, v)] => quotedWith asciiEscape k ++ ':' :: lineChars v
  | (k, v) :: rest => quotedWith asciiEscape k ++ ':' :: lineChars v ++ ',' :: lineMembers rest
end

/-- A value on one line. -/
def line (v : Json) : String := String.ofList (lineChars v)

end Cadence.Json
