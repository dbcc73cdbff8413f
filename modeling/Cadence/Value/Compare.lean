/-
  COMPARISON of two values that may differ in type.

  Operands of one type are compared as they are: numbers by size, truth values with false below
  true, texts by their characters.  Operands of two types are brought to one first.  A real or a
  truth value on the right decides the type; otherwise the left operand does.
-/
import Cadence.Value.Literal

namespace Cadence

namespace Value

/-- A value brought to another type. -/
def coerce (value : Value) (target : ValueType) (site : Option Site := none) :
    Except Fault Value :=
  let refuse : Except Fault Value := .error (.at site (.notComparable value.type target))
  let number : NumberFault → Fault := fun f => .trouble (.number f)
  match target with
  | .bool =>
    match value with
    | .text s => (Literal.toBool (some s) site).map .bool
    | .int n => .ok (.bool (n ≠ 0))
    | .real x => .ok (.bool (x != 0))
    | _ => refuse
  | .real =>
    match value with
    | .text s => (Literal.toDouble (some s) site).map .real
    | .int n => ((Double.ofInt? n).mapError number).map .real
    | .bool b => .ok (.real (if b then 1 else 0))
    | _ => refuse
  | .int =>
    match value with
    | .text s => (Literal.toInt (some s) site).map .int
    | .bool b => .ok (.int (if b then 1 else 0))
    | .real x => ((Double.ofFloat x).round.mapError number).map .int
    | _ => refuse
  | .text =>
    match value with
    | .real x => .ok (.text (plainReal x))
    | .int n => ((writeInt n).mapError number).map .text
    | .bool b => .ok (.text (boolText b))
    | _ => refuse
  | .null => refuse

/-- How two values of one type stand to each other. -/
structure Standing where
  /-- Are they equal? -/
  equal : Bool
  /-- Is the left one smaller? -/
  less : Bool
  /-- Is the left one larger? -/
  greater : Bool
deriving Repr, DecidableEq

/-- The standing of two values of one type that has an order. -/
def standing? : Value → Value → Option Standing
  | .bool a, .bool b => some ⟨a == b, !a && b, a && !b⟩
  | .int a, .int b => some ⟨a = b, a < b, b < a⟩
  | .real a, .real b => some ⟨a == b, a < b, b < a⟩
  | .text a, .text b => some ⟨a = b, a < b, b < a⟩
  | _, _ => none

/-- The answer of a comparison operator. -/
def Standing.answers? (s : Standing) : Kind → Option Bool
  | .equal => some s.equal
  | .notEqual => some !s.equal
  | .less => some s.less
  | .lessEqual => some (s.less || s.equal)
  | .greater => some s.greater
  | .greaterEqual => some (s.greater || s.equal)
  | _ => none

/-- The symbol of an operator that needs an order. -/
def orderSymbol : Kind → String
  | .less => "<"
  | .lessEqual => "<="
  | .greater => ">"
  | _ => ">="

/-- Two operands brought to one type. -/
def unify (lhs rhs : Value) (site : Option Site) : Except Fault (Value × Value) :=
  if lhs.type = rhs.type then .ok (lhs, rhs)
  else if rhs.type = .real ∨ rhs.type = .bool then
    (lhs.coerce rhs.type site).map fun l => (l, rhs)
  else (rhs.coerce lhs.type site).map fun r => (lhs, r)

/-- The answer of an operator on two operands of one type.  Two absent values are equal and have no
order. -/
def answer (op : Kind) (lhs rhs : Value) (site : Option Site) : Except Fault Bool :=
  if op.isComparison then
    match (standing? lhs rhs).bind (Standing.answers? · op) with
    | some b => .ok b
    | none =>
      if op = .equal then .ok true
      else if op = .notEqual then .ok false
      else .error (.at site (.unordered (orderSymbol op)))
  else .error (.at site .unknownComparison)

/-- The answer of a comparison operator on two operands of any types. -/
def compare (op : Kind) (lhs rhs : Value) (site : Option Site := none) : Except Fault Bool :=
  match unify lhs rhs site with
  | .ok (l, r) => answer op l r site
  | .error fault => .error fault

example : (standing? (.text "a") (.text "b")).map Standing.less = some true := by decide +kernel

end Value

end Cadence
