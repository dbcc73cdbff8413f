/-
  DIRECT MEANING — what an expression says, told without tokens.

  In a tree every call is a row of tokens, and evaluation finds out again where one call ends and
  the next operator stands.  Here is what an expression says by itself:
    * a CALL holds when its handler's answer equals true, or false if it is turned around;
    * a COMPARISON compares the values of its two sides, the left one first;
    * a CHAIN is folded from the left over its terms, all of which are asked, without precedence.

  The tree matters in one respect only.  A handler is given its arguments with their places, and
  a failure tells its place, so the meaning is told for an expression that stands at a given place.
-/
import Cadence.Tree.Builder
import Cadence.World.Evaluation

namespace Cadence

open ScriptM

/-! ## Places and tokens -/

/-- A node as the child of a place, at the given position. -/
def Site.down (place : Site) (i : Nat) (n : Node) : Site := ⟨n, (place.node, i) :: place.above⟩

namespace Token

/-- What a token stands for. -/
def kind : Token → Kind
  | .word _ | .bool _ => .operand
  | .int _ => .integer
  | .real _ => .double
  | .leaf kind _ => kind

@[simp] theorem kind_node (line : Int) (t : Token) : (t.node line).kind = t.kind := by
  cases t <;> rfl

/-- The arguments that some tokens are, the first of them at the given position below a place. -/
def arguments (owner : Nat) (line : Int) (place : Site) (i : Nat) (ts : List Token) :
    List Argument :=
  ts.mapIdx fun k t => ⟨owner, place.down (i + k) (t.node line)⟩

end Token

/-! ## Meaning -/

section

variable {σ ι : Type} (host : Host σ ι) (owner : Nat) (line : Int)

/-- The value that is written out at a site.  A bare word that is a keyword is called, and any other
bare word is a text. -/
def Site.value (s : Site) : ScriptM σ ι Value :=
  match s.kind with
  | .integer => return .int (← lift (Literal.toInt s.lexeme (some s)))
  | .serial => return .int (← lift (Literal.toUInt s.lexeme (some s)))
  | .double => return .real (← lift (Literal.toDouble s.lexeme (some s)))
  | .string => return .text (s.lexeme.getD "")
  | .operand =>
    match s.lexeme with
    | none => return .text ""
    | some word => do
      match ← expressionHandler? word with
      | none => return .text word
      | some h => callExpression host h word [] false
  | _ => fail (some s) .badOperand

namespace Call

/-- How many marks stand before the keyword. -/
def marks (c : Call) : Nat := c.quiet.toNat + c.negated.toNat

/-- Where the keyword stands, if the call begins at the given position. -/
def site (place : Site) (i : Nat) (c : Call) : Site :=
  place.down (i + c.marks) { kind := .operand, lexeme := some c.keyword, line }

/-- The arguments, if the call begins at the given position. -/
def arguments (place : Site) (i : Nat) (c : Call) : List Argument :=
  Token.arguments owner line place (i + c.marks + 1) c.args

/-- Does the answer of a call hold? -/
def holds (place : Site) (c : Call) : ScriptM σ ι Bool := do
  match ← expressionHandler? c.keyword with
  | none => fail (some (c.site line place 0)) .unknownExpression
  | some h =>
    let answer ← callExpression host h c.keyword (c.arguments owner line place 0) c.quiet
    lift (Value.compare .equal answer (.bool !c.negated) (some (c.site line place 0)))

end Call

namespace Operand

/-- How many tokens one side of a comparison has. -/
def size : Operand → Nat
  | .call c => c.marks + 1 + c.args.length
  | .token _ => 1

/-- What is said of a mark that stands alone, before an operator or at the end. -/
def lone (next : Option Site) : Cause := if next.isSome then .badOperand else .missingOperand

/-- What is said of the first argument of a word that is no keyword, before an operator or at the
end. -/
def stray (next : Option Site) : Cause := if next.isSome then .invalidBinary else .leftoverOperand

/-- The value of one side of a comparison that begins at the given position, before the operator or
at the end. -/
def value (next : Option Site) (place : Site) (i : Nat) : Operand → ScriptM σ ι Value
  | .call c => do
    match ← expressionHandler? c.keyword with
    | some h => callExpression host h c.keyword (c.arguments owner line place i) c.quiet
    | none =>
      match c.arguments owner line place i with
      | [] => return .text c.keyword
      | a :: _ => fail (some a.site) (stray next)
  | .token t =>
    if t.kind.isModifier then fail next (lone next)
    else (place.down i (t.node line)).value host

end Operand

namespace Expr

/-- Does a call or a comparison hold that stands at the given place? -/
def term (place : Site) : Expr → ScriptM σ ι Bool
  | .call c => c.holds host owner line place
  | .binary lhs op rhs =>
    match operator? op with
    | none => fail (some place) .invalidBinary
    | some kind => do
      let site := place.down lhs.size { kind, lexeme := some op, line }
      let l ← lhs.value host owner line (some site) place 0
      let r ← rhs.value host owner line none place (lhs.size + 1)
      lift (Value.compare kind l r (some site))
  | .logical _ _ => fail (some place) .nestedLogical

/-- Two answers joined by an operator. -/
def joined (op : String) (a b : Bool) : Bool :=
  if operator? op = some .both then a && b else a || b

/-- Does an expression hold that stands at the given place? -/
def meaning (place : Site) : Expr → ScriptM σ ι Bool
  | .logical first rest => do
    let answer ← first.term host owner line (place.down 0 (first.attach line).1)
    rest.zipIdx.foldlM (fun result ((op, e), k) => do
      let answer ← e.term host owner line (place.down (2 * k + 2) (e.attach line).1)
      return joined op result answer) answer
  | e => e.term host owner line place

end Expr

end

/-! ## Which expressions -/

/-- No argument of a call is an operator. -/
def Call.Proper (c : Call) : Prop := ∀ t ∈ c.args, t.kind.endsArguments = false

/-- One side of a comparison is a proper call, or any token. -/
def Operand.Proper : Operand → Prop
  | .call c => c.Proper
  | .token _ => True

/-- A proper call, or a comparison of two proper sides. -/
def Expr.Simple : Expr → Prop
  | .call c => c.Proper
  | .binary lhs op rhs =>
    (∃ kind, operator? op = some kind ∧ kind.isComparison = true) ∧ lhs.Proper ∧ rhs.Proper
  | .logical _ _ => False

/-- A simple expression, or a chain of simple ones. -/
def Expr.Proper : Expr → Prop
  | .logical first rest =>
    first.Simple ∧
      ∀ p ∈ rest, (∃ kind, operator? p.1 = some kind ∧ kind.isLogical = true) ∧ p.2.Simple
  | e => e.Simple

end Cadence
