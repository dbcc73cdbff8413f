/-
  PROBLEMS of a document: where something is wrong, and what.

  A place in a document is the path of keys and positions that leads to it.  Problems are listed by
  place and kind; a document is good when its list is empty.
-/
import Cadence.Tree.Kind

namespace Cadence

/-- One step of the way to a place in a document. -/
inductive Step where
  /-- The value under a key. -/
  | key (name : String)
  /-- The element at a position. -/
  | position (index : Nat)
deriving Repr, DecidableEq

/-- What is wrong at a place. -/
inductive Defect where
  /-- The text is not a JSON text. -/
  | malformed
  /-- An object is needed. -/
  | notObject
  /-- A needed key is absent. -/
  | absent
  /-- The key has no meaning. -/
  | unknownKey
  /-- The word names no kind of node. -/
  | unknownKind
  /-- A text is needed. -/
  | notText
  /-- An array is needed. -/
  | notArray
  /-- Only the version number one is understood. -/
  | wrongVersion
  /-- A real number is given whose part after the point is not zero. -/
  | fractional
  /-- A number is given that is too large to be read as a whole one. -/
  | oversized
  /-- An infinite or undefined number is given. -/
  | notFinite
  /-- The text does not write a whole number. -/
  | notDigits
  /-- A whole number is needed. -/
  | notWhole
  /-- The number is below zero. -/
  | negative
  /-- The topmost node is not a script. -/
  | rootNotScript
  /-- A node directly below the script is not a statement. -/
  | partNotStatement (kind : Kind)
deriving Repr, DecidableEq

/-- Something wrong with a document. -/
structure Problem where
  /-- The way to the place. -/
  path : List Step
  /-- What is wrong there. -/
  defect : Defect
deriving Repr, DecidableEq

/-- The rule that a defect breaks, for the defects that a rule about whole trees finds. -/
def Defect.rule? : Defect → Option String
  | .rootNotScript => some "root node must have type SCRIPT"
  | .partNotStatement kind => some ("script children must be STATEMENT nodes, got " ++ kind.tag)
  | _ => none

end Cadence
