/-
  BUILDING scripts statement by statement.

  A builder holds the statements made so far and the number of the last line.  A call adds one
  statement on the next line, or on a line of its own; the nodes of a statement share its line.  An
  expression is attached piece by piece, from left to right, and an operator that does not exist is
  noticed only when it is reached: what was attached before it STAYS in the tree, below a statement
  that has its line.  So a call answers with a builder in any case, and perhaps with an error.
-/
import Cadence.Fault
import Cadence.Text.Blank

namespace Cadence

/-! ## What is built -/

/-- An argument of a call. -/
inductive Token where
  /-- A bare word. -/
  | word (text : String)
  /-- A whole number. -/
  | int (n : Int)
  /-- A truth value. -/
  | bool (b : Bool)
  /-- A real number. -/
  | real (x : Float)
  /-- A leaf of any kind. -/
  | leaf (kind : Kind) (lexeme : Option String)
deriving Repr

/-- The number of an object, in hexadecimal. -/
def Token.serial (n : Int) : Token := .leaf .serial (hexText n)

/-- A quoted text. -/
def Token.string (text : String) : Token := .leaf .string text

/-- A keyword with its arguments. -/
structure Call where
  /-- The keyword. -/
  keyword : String
  /-- The arguments, in order. -/
  args : List Token := []
  /-- Is the handler asked to be quiet? -/
  quiet : Bool := false
  /-- Is the answer turned around? -/
  negated : Bool := false
deriving Repr

/-- One side of a comparison. -/
inductive Operand where
  /-- A call whose answer is compared. -/
  | call (c : Call)
  /-- A value that is written out. -/
  | token (t : Token)
deriving Repr

/-- An expression. -/
inductive Expr where
  /-- A call whose answer is a truth value. -/
  | call (c : Call)
  /-- A comparison. -/
  | binary (lhs : Operand) (op : String) (rhs : Operand)
  /-- A chain of expressions, each after the first behind an operator. -/
  | logical (first : Expr) (rest : List (String × Expr))

/-- The statements that have a guard. -/
inductive Guard where
  /-- The start of a choice. -/
  | ifStart
  /-- A further branch of a choice. -/
  | elseIf
  /-- The start of a guarded loop. -/
  | whileStart
deriving Repr, DecidableEq

/-- The kind of a guard's statement. -/
def Guard.kind : Guard → Kind
  | .ifStart => .ifStart
  | .elseIf => .elseIf
  | .whileStart => .whileStart

/-- One statement to build. -/
inductive Part where
  /-- A node that is put in as it is, without counting a line. -/
  | raw (node : Node)
  /-- A command. -/
  | command (keyword : String) (args : List Token) (quiet force : Bool)
  /-- A statement with a guard. -/
  | guarded (guard : Guard) (expr : Expr)
  /-- The start of a counted loop. -/
  | count (text : String)
  /-- The start of a loop over a list. -/
  | forEach (variable_ list : String)
  /-- A statement that is one keyword. -/
  | bare (kind : Kind)

/-! ## Attaching expressions -/

/-- The operators by their symbols. -/
def operators : List (String × Kind) :=
  [("==", .equal), ("!=", .notEqual), ("<", .less), ("<=", .lessEqual), (">", .greater),
   (">=", .greaterEqual), ("and", .both), ("or", .either)]

/-- The operator that a symbol stands for, in any case. -/
def operator? (symbol : String) : Option Kind := operators.lookup (Text.fold symbol)

/-- The leaf of an argument. -/
def Token.node (line : Int) : Token → Node
  | .word text => { kind := .operand, lexeme := some text, line }
  | .int n => { kind := .integer, lexeme := some (intText n), line }
  | .bool b => { kind := .operand, lexeme := some (if b then "true" else "false"), line }
  | .real x => { kind := .double, lexeme := some (realText x), line }
  | .leaf kind lexeme => { kind, lexeme, line }

/-- The nodes of a call: its marks, its keyword and its arguments. -/
def Call.nodes (line : Int) (c : Call) : List Node :=
  (if c.quiet then [{ kind := .quiet, lexeme := some "@", line }] else [])
    ++ (if c.negated then [{ kind := .negate, lexeme := some "not", line }] else [])
    ++ { kind := .operand, lexeme := some c.keyword, line } :: c.args.map (Token.node line)

/-- The nodes of one side of a comparison. -/
def Operand.nodes (line : Int) : Operand → List Node
  | .call c => c.nodes line
  | .token t => [t.node line]

mutual
/-- The node of an expression as far as it can be attached, and what stopped it. -/
def Expr.attach (line : Int) : Expr → Node × Option LoadError
  | .call c => ({ kind := .unary, line, children := c.nodes line }, none)
  | .binary lhs op rhs =>
    match operator? op with
    | some kind =>
      ({ kind := .binary, line,
         children := lhs.nodes line ++ { kind, lexeme := some op, line } :: rhs.nodes line },
        none)
    | none =>
      ({ kind := .binary, line, children := lhs.nodes line }, some (.unknownOperator op))
  | .logical first rest =>
    match first.attach line with
    | (node, some error) => ({ kind := .logical, line, children := [node] }, some error)
    | (node, none) =>
      let (nodes, error) := Expr.attachRest line rest
      ({ kind := .logical, line, children := node :: nodes }, error)

/-- The nodes of the later terms of a chain, as far as they can be attached. -/
def Expr.attachRest (line : Int) : List (String × Expr) → List Node × Option LoadError
  | [] => ([], none)
  | (op, e) :: rest =>
    match operator? op with
    | none => ([], some (.unknownOperator op))
    | some kind =>
      let joint : Node := { kind, lexeme := some op, line }
      match e.attach line with
      | (node, some error) => ([joint, node], some error)
      | (node, none) =>
        let (nodes, error) := Expr.attachRest line rest
        (joint :: node :: nodes, error)
end

/-! ## Statements -/

/-- A script under construction. -/
structure Builder where
  /-- The statements made so far. -/
  parts : List Node := []
  /-- The number of the last line. -/
  line : Int := 0
deriving Inhabited

namespace Builder

/-- The script built so far. -/
def root (b : Builder) : Node := { kind := .script, children := b.parts }

/-- Adds a statement with the given nodes on the given line. -/
def push (b : Builder) (line : Int) (children : List Node) : Builder :=
  { parts := b.parts ++ [{ kind := .statement, line, children }], line }

/-- Adds a statement; on the next line if none is given. -/
def add (b : Builder) (part : Part) (at_ : Option Int := none) : Builder × Option LoadError :=
  let line := at_.getD (b.line + 1)
  let keyword (kind : Kind) (children : List Node) : Node :=
    { kind, lexeme := some kind.word, line, children }
  let leaf (kind : Kind) (text : String) : Node := { kind, lexeme := some text, line }
  match part with
  | .raw node => ({ b with parts := b.parts ++ [node] }, none)
  | .command word args quiet force =>
    (b.push line
      ((if quiet then [leaf .quiet "@"] else []) ++ (if force then [leaf .force "!"] else [])
        ++ leaf .command word :: args.map (Token.node line)), none)
  | .guarded guard expr =>
    let (node, error) := expr.attach line
    (b.push line [keyword guard.kind [node]], error)
  | .count text => (b.push line [keyword .forStart [leaf .integer text]], none)
  | .forEach name list =>
    (b.push line [keyword .forEachStart [leaf .operand name, leaf .operand list]], none)
  | .bare kind => (b.push line [keyword kind []], none)

/-- Adds statements in order, up to the first that fails. -/
def addAll (b : Builder) : List (Part × Option Int) → Builder × Option LoadError
  | [] => (b, none)
  | (part, line) :: rest =>
    match b.add part line with
    | (b', none) => b'.addAll rest
    | (b', some error) => (b', some error)

/-- The script of some statements. -/
def build (parts : List (Part × Option Int)) : Except LoadError Node :=
  match ({} : Builder).addAll parts with
  | (b, none) => .ok b.root
  | (_, some error) => .error error

end Builder

end Cadence
