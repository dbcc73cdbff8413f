/-
  FAULTS — everything that can stop an operation, by cause.

  A SCRIPT ERROR is a fault of the running script: it has a cause, the site where it arose, once
  known, and the step of the log it belongs to.  A TROUBLE is any other fault: a number that cannot
  be had, variables bound in a circle, something that cannot be loaded, or what a handler of the
  host reports.  A tick turns the troubles of a statement into script errors, so that hosts can
  always say where they happened.

  Every fault is a value; the words for it stand in one function per type.
-/
import Cadence.Tree.Site
import Cadence.Value.Basic
import Cadence.Document.Problem

namespace Cadence

/-! ## Troubles -/

/-- What cannot be loaded as a script, or built as one. -/
inductive LoadError where
  /-- An expression is built with an operator that does not exist. -/
  | unknownOperator (symbol : String)
  /-- A document breaks the rules for documents. -/
  | badDocument (problems : List Problem)
  /-- A document cannot be read; the reason is given. -/
  | unreadable (path reason : String)
deriving Repr

/-- The wording of a load error. -/
def LoadError.message : LoadError → String
  | .unknownOperator symbol => "Unknown operator '" ++ symbol ++ "'"
  | .badDocument _ => "Invalid script document"
  | .unreadable path reason => "Failed to read script document " ++ path ++ ": " ++ reason

/-- The three tables that words can be registered in. -/
inductive Register where
  /-- Commands. -/
  | command
  /-- Expressions. -/
  | expression
  /-- Aliases that are computed. -/
  | computedAlias
deriving Repr, DecidableEq

/-- The word for a table of words. -/
def Register.word : Register → String
  | .command => "Command"
  | .expression => "Expression"
  | .computedAlias => "Alias"

/-- What is wrong with an extension. -/
inductive ExtensionError where
  /-- A word to register is not a text, or is empty. -/
  | badKeyword (register : Register)
  /-- A step rule is to run every so many steps, but not at least one. -/
  | badInterval
  /-- The services serve one interpreter and are asked to serve another. -/
  | alreadyAttached
  /-- An extension asks for the interpreter before there is one. -/
  | notAttached (name : String)
  /-- An extension is made for another version of the interface. -/
  | wrongInterface (name version : String)
  /-- An extension has no way to register its words. -/
  | noEntry (name : String)
  /-- There is no file at the path of an extension. -/
  | notFound (path : String)
  /-- The file at the path is no extension. -/
  | unloadable (path : String)
  /-- There is no pointer file at the path. -/
  | pointerNotFound (path : String)
deriving Repr, DecidableEq

/-- The version of the interface between interpreter and extensions. -/
def interfaceVersion : Nat := 1

/-- The wording of an extension error. -/
def ExtensionError.message : ExtensionError → String
  | .badKeyword register => register.word ++ " keyword must be a non-empty string"
  | .badInterval => "every_n_steps must be >= 1"
  | .alreadyAttached => "Runtime services are already attached to another interpreter"
  | .notAttached name => "Extension " ++ name ++ " used before an interpreter was attached"
  | .wrongInterface name version =>
    s!"Extension {name} requires API {version}, host supports {interfaceVersion}"
  | .noEntry name => "Extension " ++ name ++ " must define callable lscript_register(ext)"
  | .notFound path => "Extension not found: " ++ path
  | .unloadable path => "Failed to load extension module: " ++ path
  | .pointerNotFound path => ".lsx file not found: " ++ path

/-- A fault that is not the script's own. -/
inductive Trouble where
  /-- A number cannot be had in the wanted form. -/
  | number (fault : NumberFault)
  /-- Variables are bound in a circle. -/
  | cycle
  /-- A loop is visited again although its first visit never counted. -/
  | missingFrame
  /-- A suspended script has no deadline. -/
  | missingDeadline
  /-- A step log is to hold less than nothing. -/
  | negativeCapacity
  /-- Something cannot be loaded or built. -/
  | load (error : LoadError)
  /-- Something is wrong with an extension. -/
  | extension (error : ExtensionError)
  /-- A handler of the host reports a fault of its own, under the host's name for it. -/
  | reported (name text : String)
deriving Repr

/-- The wording of a trouble. -/
def Trouble.message : Trouble → String
  | .number fault => fault.message
  | .cycle => "maximum recursion depth exceeded"
  | .missingFrame => "'NoneType' object has no attribute 'index'"
  | .missingDeadline => "'<' not supported between instances of 'float' and 'NoneType'"
  | .negativeCapacity => "maxlen must be non-negative"
  | .load error => error.message
  | .extension error => error.message
  | .reported _ text => text

/-! ## Script errors -/

/-- What an argument can be read as. -/
inductive Reading where
  /-- A signed whole number of 32 bits. -/
  | int
  /-- An unsigned whole number of 32 bits. -/
  | uint
  /-- An unsigned whole number of 16 bits. -/
  | ushort
  /-- A real number. -/
  | double
  /-- A text. -/
  | string
  /-- A truth value. -/
  | bool
  /-- The number of an object. -/
  | serial
deriving Repr, DecidableEq

/-- The word for a reading in messages. -/
def Reading.word : Reading → String
  | .int => "int"
  | .uint => "uint"
  | .ushort => "ushort"
  | .double => "double"
  | .string => "string"
  | .bool => "bool"
  | .serial => "serial"

/-- Why a script cannot go on. -/
inductive Cause where
  /-- What stands where a statement should is none. -/
  | invalidScript
  /-- A statement is empty or starts with something that starts no statement. -/
  | invalidStatement
  /-- A loop's end, a break or a continue belongs to no loop. -/
  | unexpected (kind : Kind)
  /-- A choice has no end. -/
  | unclosedChoice
  /-- A loop has no end. -/
  | unclosedLoop (kind : Kind)
  /-- A counted loop has no number to count to. -/
  | badCount
  /-- A loop over a list lacks its variable or its list. -/
  | badForEach
  /-- A command has no keyword. -/
  | invalidCommand
  /-- No handler is registered for a command. -/
  | unknownCommand
  /-- An operator follows the arguments of a command. -/
  | leftoverArguments
  /-- A guard has no expression. -/
  | noExpression
  /-- An expression has no parts. -/
  | emptyExpression
  /-- The parts of a logical chain are joined by something else than an operator. -/
  | badConnective
  /-- A logical chain ends with an operator. -/
  | danglingConnective
  /-- A later part of a logical chain is not a simple expression. -/
  | nestedLogical
  /-- A call has no keyword. -/
  | invalidUnary
  /-- No handler is registered for an expression. -/
  | unknownExpression
  /-- A comparison has no operator after its left operand. -/
  | invalidBinary
  /-- Something follows the right operand of a comparison. -/
  | leftoverOperand
  /-- A comparison lacks an operand. -/
  | missingOperand
  /-- An operand of a comparison has a kind that is none of an operand. -/
  | badOperand
  /-- An argument is asked for its text and has none. -/
  | noLexeme
  /-- An argument without text is to be read as a value. -/
  | absent (reading : Reading)
  /-- A text cannot be read as a value. -/
  | notConvertible (reading : Reading) (token : Option String)
  /-- A value cannot be brought to the type of the other operand. -/
  | notComparable (value target : ValueType)
  /-- The operator of a comparison is none. -/
  | unknownComparison
  /-- The operands of a comparison have no order. -/
  | unordered (symbol : String)
  /-- A handler is called with too few arguments; its form is given. -/
  | usage (form : String)
  /-- There is no list of the name. -/
  | noList (name : String)
  /-- The list of the name has no entry to remove. -/
  | emptyList (name : String)
  /-- The action is for the active script, and no script is active. -/
  | inactive (action : String)
  /-- The statement was stopped by a trouble. -/
  | interrupted (by_ : Trouble)
  /-- A listener of an event was stopped by a trouble. -/
  | listenerFailed (event : String) (by_ : Trouble)
  /-- A step rule was stopped by a trouble. -/
  | ruleFailed (by_ : Trouble)
  /-- A handler of the host reports a script error in its own words. -/
  | reported (text : String)
deriving Repr

/-- The word that closes a loop of the given kind. -/
def closer (kind : Kind) : String := if kind = .whileStart then "endwhile" else "endfor"

/-- The wording of a cause. -/
def Cause.message : Cause → String
  | .invalidScript => "Invalid script"
  | .invalidStatement => "Invalid statement"
  | .unexpected kind => "Unexpected " ++ kind.word
  | .unclosedChoice => "If with no matching endif"
  | .unclosedLoop kind => kind.title ++ " with no matching " ++ closer kind
  | .badCount => "Invalid for loop syntax"
  | .badForEach => "Invalid foreach loop syntax"
  | .invalidCommand => "Invalid command"
  | .unknownCommand => "Unknown command"
  | .leftoverArguments => "Command did not consume all available arguments"
  | .noExpression => "No expression following control statement"
  | .emptyExpression => "Empty expression following control statement"
  | .badConnective => "Invalid logical operator"
  | .danglingConnective => "Invalid logical expression"
  | .nestedLogical => "Nested logical expressions are not possible"
  | .invalidUnary => "Invalid unary expression"
  | .unknownExpression => "Unknown expression"
  | .invalidBinary => "Invalid binary expression"
  | .leftoverOperand => "Unexpected token in binary expression"
  | .missingOperand => "Missing operand in expression"
  | .badOperand => "Invalid type found in expression"
  | .noLexeme => "No lexeme found."
  | .absent reading => "Cannot convert argument to " ++ reading.word
  | .notConvertible reading token =>
    "Cannot convert argument to " ++ reading.word ++ "(" ++ token.getD "None" ++ ")"
  | .notComparable value target =>
    "Cannot convert " ++ value.word ++ " to " ++ target.word ++ " for comparison"
  | .unknownComparison => "Unknown operator in expression"
  | .unordered symbol =>
    "'" ++ symbol ++ "' not supported between instances of 'NoneType' and 'NoneType'"
  | .usage form => "Usage: " ++ form
  | .noList name => "List '" ++ name ++ "' does not exist"
  | .emptyList name => "List '" ++ name ++ "' is empty"
  | .inactive action => action ++ " requires an active script"
  | .interrupted t => "Internal interpreter error: " ++ t.message
  | .listenerFailed event t => "Extension hook '" ++ event ++ "' failed: " ++ t.message
  | .ruleFailed t => "Extension step rule failed: " ++ t.message
  | .reported text => text

/-- A fault of the running script. -/
structure ScriptError where
  /-- Where it arose, once known. -/
  site : Option Site
  /-- Why. -/
  cause : Cause
  /-- The step of the log during which it arose, once known. -/
  step : Option Nat := none
deriving Repr

/-- The wording of a script error. -/
def ScriptError.message (e : ScriptError) : String := e.cause.message

/-- The line of a script error, once known. -/
def ScriptError.line? (e : ScriptError) : Option Int := e.site.map Site.line

/-- Anything that can stop an operation. -/
inductive Fault where
  /-- A fault of the running script. -/
  | script (error : ScriptError)
  /-- Any other fault. -/
  | trouble (t : Trouble)
deriving Repr

/-- The script error with the given cause at a site. -/
def Fault.at (site : Option Site) (cause : Cause) : Fault := .script { site, cause }

/-- The wording of a fault. -/
def Fault.message : Fault → String
  | .script error => error.message
  | .trouble t => t.message

end Cadence
