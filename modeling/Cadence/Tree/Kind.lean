/-
  KINDS of nodes: what a node of a script's tree stands for.

  A kind has a TAG, the word that documents use for it, and belongs to some of a few families: the
  marks that stand before a keyword, the operators that end a list of arguments, the expressions,
  the ends and the headers of loops.
-/
namespace Cadence

/-- What a node stands for. -/
inductive Kind where
  /-- The whole script. -/
  | script
  /-- One statement. -/
  | statement
  /-- Opens a choice. -/
  | ifStart
  /-- A further guarded branch of a choice. -/
  | elseIf
  /-- The last branch of a choice. -/
  | elseStart
  /-- Closes a choice. -/
  | ifEnd
  /-- Opens a guarded loop. -/
  | whileStart
  /-- Closes a guarded loop. -/
  | whileEnd
  /-- Opens a counted loop. -/
  | forStart
  /-- Opens a loop over a list. -/
  | forEachStart
  /-- Closes a counted loop or a loop over a list. -/
  | forEnd
  /-- Leaves a loop. -/
  | breakLoop
  /-- Goes on with the next pass of a loop. -/
  | continueLoop
  /-- Ends the script. -/
  | stop
  /-- Starts the script again. -/
  | replay
  /-- The keyword of a command. -/
  | command
  /-- Asks a handler to be quiet. -/
  | quiet
  /-- Asks a command to insist. -/
  | force
  /-- Turns an expression around. -/
  | negate
  /-- A call whose result is a truth value. -/
  | unary
  /-- A comparison of two operands. -/
  | binary
  /-- A chain of expressions. -/
  | logical
  /-- Joins two expressions that must both hold. -/
  | both
  /-- Joins two expressions of which one must hold. -/
  | either
  /-- The operands are equal. -/
  | equal
  /-- The operands differ. -/
  | notEqual
  /-- The left operand is smaller. -/
  | less
  /-- The left operand is not larger. -/
  | lessEqual
  /-- The left operand is larger. -/
  | greater
  /-- The left operand is not smaller. -/
  | greaterEqual
  /-- A signed whole number. -/
  | integer
  /-- The number of an object. -/
  | serial
  /-- A quoted text. -/
  | string
  /-- A real number. -/
  | double
  /-- A bare word. -/
  | operand
deriving DecidableEq, Repr, Inhabited

namespace Kind

/-- Every kind, in the order of declaration. -/
def all : List Kind :=
  [.script, .statement, .ifStart, .elseIf, .elseStart, .ifEnd, .whileStart, .whileEnd,
   .forStart, .forEachStart, .forEnd, .breakLoop, .continueLoop, .stop, .replay, .command,
   .quiet, .force, .negate, .unary, .binary, .logical, .both, .either, .equal, .notEqual,
   .less, .lessEqual, .greater, .greaterEqual, .integer, .serial, .string, .double, .operand]

/-- The word for a kind in documents. -/
def tag : Kind → String
  | .script => "SCRIPT"
  | .statement => "STATEMENT"
  | .ifStart => "IF"
  | .elseIf => "ELSEIF"
  | .elseStart => "ELSE"
  | .ifEnd => "ENDIF"
  | .whileStart => "WHILE"
  | .whileEnd => "ENDWHILE"
  | .forStart => "FOR"
  | .forEachStart => "FOREACH"
  | .forEnd => "ENDFOR"
  | .breakLoop => "BREAK"
  | .continueLoop => "CONTINUE"
  | .stop => "STOP"
  | .replay => "REPLAY"
  | .command => "COMMAND"
  | .quiet => "QUIET"
  | .force => "FORCE"
  | .negate => "NOT"
  | .unary => "UNARY_EXPRESSION"
  | .binary => "BINARY_EXPRESSION"
  | .logical => "LOGICAL_EXPRESSION"
  | .both => "AND"
  | .either => "OR"
  | .equal => "EQUAL"
  | .notEqual => "NOT_EQUAL"
  | .less => "LESS_THAN"
  | .lessEqual => "LESS_THAN_OR_EQUAL"
  | .greater => "GREATER_THAN"
  | .greaterEqual => "GREATER_THAN_OR_EQUAL"
  | .integer => "INTEGER"
  | .serial => "SERIAL"
  | .string => "STRING"
  | .double => "DOUBLE"
  | .operand => "OPERAND"

/-- The kind that a word stands for. -/
def ofTag? (word : String) : Option Kind := all.find? fun k => k.tag = word

/-- The tag in lower case: how a node without text is shown. -/
def word (k : Kind) : String := k.tag.toLower

/-- The word of a kind with a capital first letter. -/
def title (k : Kind) : String := String.ofList (k.tag.toList.take 1 ++ k.word.toList.drop 1)

/-! ## Families -/

/-- The marks that may stand before a keyword. -/
def isModifier : Kind → Bool
  | .quiet | .force | .negate => true
  | _ => false

/-- The operators between the parts of a logical chain. -/
def isLogical : Kind → Bool
  | .both | .either => true
  | _ => false

/-- The operators between two operands. -/
def isComparison : Kind → Bool
  | .equal | .notEqual | .less | .lessEqual | .greater | .greaterEqual => true
  | _ => false

/-- The tokens that end a list of arguments. -/
def endsArguments (k : Kind) : Bool := k.isLogical || k.isComparison

/-- The three forms of an expression. -/
def isExpression : Kind → Bool
  | .unary | .binary | .logical => true
  | _ => false

/-- The kinds that have no text of their own. -/
def isStructural (k : Kind) : Bool := k.isExpression || k = .statement

/-- The statements that open a loop. -/
def isLoopStart : Kind → Bool
  | .whileStart | .forStart | .forEachStart => true
  | _ => false

/-- The statements that close a loop. -/
def isLoopEnd : Kind → Bool
  | .whileEnd | .forEnd => true
  | _ => false

/-! ## Tags -/

theorem mem_all (k : Kind) : k ∈ all := by cases k <;> decide

/-- A tag stands for the kind it was taken from, so no two kinds share one. -/
theorem ofTag?_tag (k : Kind) : ofTag? k.tag = some k := by cases k <;> decide +kernel

/-- Only the tag of a kind stands for it. -/
theorem tag_of_ofTag? {w : String} {k : Kind} (h : ofTag? w = some k) : k.tag = w := by
  simpa using List.find?_some h

end Kind

end Cadence
