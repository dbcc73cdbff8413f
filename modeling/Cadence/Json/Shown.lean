/-
  JSON values as people are SHOWN them.

  A text alone stands as it is; inside an array or an object it stands between quotes.  The absent
  value, the truth values and the numbers are shown as values of a script are.
-/
import Cadence.Json.Basic
import Cadence.Value.Basic
import Cadence.Text.Quoted

namespace Cadence.Json

mutual
/-- A value inside another one. -/
def inner : Json → String
  | .null => Value.shown .null
  | .bool b => Value.shown (.bool b)
  | .int n => Value.shown (.int n)
  | .real x => Value.shown (.real x)
  | .text s => Text.quoted s
  | .array items => "[" ++ ", ".intercalate (inners items) ++ "]"
  | .object members => "\x7b" ++ ", ".intercalate (innerMembers members) ++ "\x7d"

/-- Values inside another one. -/
def inners : List Json → List String
  | [] => []
  | v :: rest => inner v :: inners rest

/-- Members inside an object. -/
def innerMembers : List (String × Json) → List String
  | [] => []
  | (k, v) :: rest => (Text.quoted k ++ ": " ++ inner v) :: innerMembers rest
end

/-- A value on its own. -/
def shown : Json → String
  | .text s => s
  | v => inner v

/-- Is a value equal to a whole number, in any type of number? -/
def equals (n : Int) : Json → Bool
  | .bool b => (Value.bool b).same (.int n)
  | .int k => k = n
  | .real x => (Value.real x).same (.int n)
  | _ => false

end Cadence.Json
