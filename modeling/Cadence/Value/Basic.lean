/-
  VALUES — what handlers answer and what aliases stand for.

  A value is a whole number of any size, a real, a truth value, a text, or nothing.  The five types
  stay apart: the whole number one, the real one and truth are three values, equal as numbers but
  shown and converted differently.
-/
import Cadence.Number.Notation

namespace Cadence

/-- A value of a script. -/
inductive Value where
  /-- No value. -/
  | null
  /-- A truth value. -/
  | bool (b : Bool)
  /-- A whole number. -/
  | int (n : Int)
  /-- A real number. -/
  | real (x : Float)
  /-- A text. -/
  | text (s : String)
deriving Repr, Inhabited

/-- The type of a value. -/
inductive ValueType where
  /-- Only the absent value. -/
  | null
  /-- The truth values. -/
  | bool
  /-- The whole numbers. -/
  | int
  /-- The reals. -/
  | real
  /-- The texts. -/
  | text
deriving Repr, DecidableEq

/-- The name of a type in messages. -/
def ValueType.word : ValueType → String
  | .null => "NoneType"
  | .bool => "bool"
  | .int => "int"
  | .real => "float"
  | .text => "str"

namespace Value

/-- The type of a value. -/
def type : Value → ValueType
  | .null => .null
  | .bool _ => .bool
  | .int _ => .int
  | .real _ => .real
  | .text _ => .text

/-- Does a value count as true where only truth matters?  Nothing, zero and the empty text do
not. -/
def truthy : Value → Bool
  | .null => false
  | .bool b => b
  | .int n => n ≠ 0
  | .real x => x != 0
  | .text s => s ≠ ""

/-- The word for a truth value where values are shown. -/
def boolText (b : Bool) : String := if b then "True" else "False"

/-- A value as it is shown. -/
def shown : Value → String
  | .null => "None"
  | .bool b => boolText b
  | .int n => intText n
  | .real x => realText x
  | .text s => s

/-- A value as it is written into a script; a whole number may have too many digits for that. -/
def written : Value → Except NumberFault String
  | .int n => writeInt n
  | v => .ok v.shown

/-- The number that a value stands for among numbers, if it is a whole one. -/
def asWhole? : Value → Option Int
  | .bool b => some (if b then 1 else 0)
  | .int n => some n
  | .real x => (Double.ofFloat x).whole?
  | _ => none

/-- Are two values the same member of a collection?  Numbers of different types are when they are
equal as numbers. -/
def same (a b : Value) : Bool :=
  match a, b with
  | .null, .null => true
  | .text s, .text t => s = t
  | .real x, .real y => x == y
  | _, _ =>
    match a.asWhole?, b.asWhole? with
    | some m, some n => m = n
    | _, _ => false

end Value

end Cadence
