/-
  JSON values.

  Whole numbers and reals stay apart: a number written with a point or an exponent is a real.  An
  object keeps its members as they were written; where a key occurs more than once, the LAST member
  counts.
-/
import Cadence.Table

namespace Cadence

/-- A JSON value. -/
inductive Json where
  /-- The absent value. -/
  | null
  /-- A truth value. -/
  | bool (b : Bool)
  /-- A number without point and exponent. -/
  | int (n : Int)
  /-- Any other number. -/
  | real (x : Float)
  /-- A text. -/
  | text (s : String)
  /-- Values in order. -/
  | array (items : List Json)
  /-- Values under keys, as written. -/
  | object (members : List (String × Json))
deriving Repr, Inhabited

namespace Json

/-- The members of an object by key; the last member of a key counts. -/
def ofMembers (members : List (String × Json)) : Table Json :=
  members.foldl (fun t m => t.insert m.1 m.2) .empty

/-- The member of an object under a key. -/
def field? (key : String) : Json → Option Json
  | .object members => (ofMembers members).get? key
  | _ => none

end Json

end Cadence
