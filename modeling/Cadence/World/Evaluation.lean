/-
  EVALUATION of expressions.

  Evaluation walks over the tokens of an expression from left to right: marks, a keyword or a value,
  arguments up to the next operator.  What is left over is an error.  A chain of expressions is
  combined from left to right without precedence, and every part is evaluated, whatever the parts
  before it said.
-/
import Cadence.Bundled.Handlers
import Cadence.Value.Compare

namespace Cadence

open ScriptM

/-- The marks in front of a keyword. -/
structure Marks where
  /-- The handler is asked to be quiet. -/
  quiet : Bool := false
  /-- The command is asked to insist. -/
  force : Bool := false
  /-- The answer is turned around. -/
  negated : Bool := false
deriving Repr, DecidableEq

/-- One more mark. -/
def Marks.add (m : Marks) : Kind → Marks
  | .quiet => { m with quiet := true }
  | .force => { m with force := true }
  | .negate => { m with negated := true }
  | _ => m

/-- The marks at the front of some tokens, and the tokens after them. -/
def takeMarks (m : Marks) : List Site → Marks × List Site
  | [] => (m, [])
  | t :: rest => if t.kind.isModifier then takeMarks (m.add t.kind) rest else (m, t :: rest)

/-- The arguments at the front of some tokens of a script, and the tokens from the next operator
on. -/
def takeArguments (owner : Nat) (tokens : List Site) : List Argument × List Site :=
  ((tokens.takeWhile fun t => !t.kind.endsArguments).map fun t => ⟨owner, t⟩,
    tokens.dropWhile fun t => !t.kind.endsArguments)

/-- A keyword: a token with its text. -/
def keyword? (tokens : List Site) : Option (Site × String × List Site) :=
  match tokens with
  | t :: rest => t.lexeme.map fun word => (t, word, rest)
  | [] => none

section

variable {σ ι : Type} (host : Host σ ι) (owner : Nat)

/-- Calls the handler of an expression. -/
def callExpression (h : Handler Bundled.Query ι) (word : String) (args : List Argument)
    (quiet : Bool) : ScriptM σ ι Value :=
  match h with
  | .bundled q => Bundled.runQuery host q args
  | .host token => host.expression token word args quiet

/-- The handler of an expression. -/
def expressionHandler? (word : String) : ScriptM σ ι (Option (Handler Bundled.Query ι)) :=
  return (← get).registry.expressions.get? word

/-- One side of a comparison: its value, and the tokens after it. -/
def evaluateOperand (tokens : List Site) : ScriptM σ ι (Value × List Site) := do
  let (marks, tokens) := takeMarks {} tokens
  match tokens with
  | [] => fail none .missingOperand
  | t :: rest =>
    match t.kind with
    | .integer => return (.int (← lift (Literal.toInt t.lexeme (some t))), rest)
    | .serial => return (.int (← lift (Literal.toUInt t.lexeme (some t))), rest)
    | .double => return (.real (← lift (Literal.toDouble t.lexeme (some t))), rest)
    | .string => return (.text (t.lexeme.getD ""), rest)
    | .operand =>
      match t.lexeme with
      | none => return (.text "", rest)
      | some word =>
        match ← expressionHandler? word with
        | none => return (.text word, rest)
        | some h =>
          let (args, rest) := takeArguments owner rest
          return (← callExpression host h word args marks.quiet, rest)
    | _ => fail (some t) .badOperand

/-- A call whose answer is a truth value. -/
def evaluateUnary (tokens : List Site) : ScriptM σ ι Bool := do
  let (marks, tokens) := takeMarks {} tokens
  match keyword? tokens with
  | none => fail tokens.head? .invalidUnary
  | some (t, word, rest) =>
    match ← expressionHandler? word with
    | none => fail (some t) .unknownExpression
    | some h =>
      let answer ← callExpression host h word (takeArguments owner rest).1 marks.quiet
      lift (Value.compare .equal answer (.bool !marks.negated) (some t))

/-- A comparison of two operands. -/
def evaluateBinary (tokens : List Site) : ScriptM σ ι Bool := do
  let (lhs, rest) ← evaluateOperand host owner tokens
  match rest with
  | [] => fail tokens.head? .invalidBinary
  | op :: rest =>
    if !op.kind.isComparison then fail (some op) .invalidBinary
    else
      let (rhs, rest) ← evaluateOperand host owner rest
      match rest with
      | extra :: _ => fail (some extra) .leftoverOperand
      | [] => lift (Value.compare op.kind lhs rhs (some op))

/-- An expression that is no chain, given by its site. -/
def evaluateSimple (expr : Site) : ScriptM σ ι Bool :=
  if expr.children.isEmpty then fail (some expr) .emptyExpression
  else if expr.kind = .unary then evaluateUnary host owner expr.children
  else evaluateBinary host owner expr.children

/-- The later parts of a chain: pairs of an operator and a simple expression. -/
def evaluateRest (result : Bool) : List Site → ScriptM σ ι Bool
  | [] => return result
  | op :: rest =>
    if !op.kind.isLogical then fail (some op) .badConnective
    else match rest with
      | [] => fail (some op) .danglingConnective
      | part :: rest =>
        if part.kind = .unary ∨ part.kind = .binary then do
          let answer ← evaluateSimple host owner part
          evaluateRest (if op.kind = .both then result && answer else result || answer) rest
        else fail (some part) .nestedLogical

/-- An expression. -/
def evaluate (expr : Site) : ScriptM σ ι Bool :=
  if !expr.kind.isExpression then fail (some expr) .noExpression
  else if expr.kind = .logical then
    match h : expr.firstChild? with
    | none => fail (some expr) .emptyExpression
    | some first => do
      have := Site.sizeOf_firstChild? h
      let result ← evaluate first
      evaluateRest host owner result first.following
  else evaluateSimple host owner expr
termination_by sizeOf expr.node

/-- The guard of a statement, whose keyword is given. -/
def evaluateGuard (keyword : Site) : ScriptM σ ι Bool :=
  match keyword.firstChild? with
  | none => fail (some keyword) .noExpression
  | some expr => evaluate host owner expr

end

end Cadence
