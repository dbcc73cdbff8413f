/-
  The WORLD — everything that one interpreter knows.

  The scripts, the one that is active, the registry, the stores that all scripts share, the clock
  and the log are one value.  Operations are functions on it that may fail; a failed operation
  keeps what it changed before it failed, as hosts see it.

  A `Host` supplies what lies outside: it says what its tokens do and where output goes.  Whatever
  the host does, it does to the same world, so a handler may itself move cursors, change stores or
  run other scripts.
-/
import Cadence.Script.Basic
import Cadence.World.Registry
import Cadence.World.StepLog

namespace Cadence

/-- Everything that one interpreter knows; `σ` is what the host keeps, `ι` how it names what it
supplies. -/
structure World (σ ι : Type) where
  /-- What the host keeps. -/
  host : σ
  /-- The reading of the clock. -/
  now : Float := 0
  /-- The scripts by number. -/
  scripts : Array (Script ι) := #[]
  /-- The active script. -/
  active : Option Nat := none
  /-- What extensions have added. -/
  registry : Registry ι := {}
  /-- Numbers by name. -/
  aliases : Table Value := .empty
  /-- Lists by name. -/
  lists : Table (List Argument) := .empty
  /-- The times at which timers run out, by name. -/
  timers : Table Float := .empty
  /-- The last steps. -/
  log : StepLog := {}
  /-- Are variables noted in the log? -/
  verbose : Bool := false

/-- An operation on the world, which may fail and then keeps what it changed. -/
abbrev ScriptM (σ ι : Type) := EStateM Fault (World σ ι)

/-- What happens in the course of a tick. -/
inductive Event where
  /-- A statement is about to be run. -/
  | beforeStatement (script : Nat) (statement : Statement)
  /-- A statement was run. -/
  | afterStatement (script : Nat) (statement : Statement)
  /-- A statement failed. -/
  | onError (script : Nat) (error : ScriptError)
  /-- A script has ended. -/
  | scriptEnd (script : Nat)
deriving Repr

/-- The name of an event. -/
def Event.name : Event → String
  | .beforeStatement .. => "before_statement"
  | .afterStatement .. => "after_statement"
  | .onError .. => "on_error"
  | .scriptEnd .. => "script_end"

/-- The step that a step rule is called for. -/
structure StepContext where
  /-- The number of the step. -/
  index : Nat
  /-- The name of the script. -/
  script : String
  /-- The line of the statement. -/
  line : Int
  /-- The text of the statement's first token. -/
  keyword : Option String
deriving Repr

/-- What lies outside the interpreter. -/
structure Host (σ ι : Type) where
  /-- Runs a command, given its word, its arguments and its marks; the answer says whether the
  script goes on. -/
  command : ι → (word : String) → List Argument → (quiet force : Bool) → ScriptM σ ι Value
  /-- Evaluates an expression. -/
  expression : ι → (word : String) → List Argument → (quiet : Bool) → ScriptM σ ι Value
  /-- Computes an alias; no value means that it is not one. -/
  computedAlias : ι → (name : String) → ScriptM σ ι Value
  /-- Is told of an event. -/
  listener : ι → Event → ScriptM σ ι Unit
  /-- Is called after a step. -/
  rule : ι → StepContext → ScriptM σ ι Unit
  /-- Is asked when the deadline of a waiting statement passes; the answer says whether the script
  goes on. -/
  callback : ι → ScriptM σ ι Value
  /-- Takes output. -/
  write : String → ScriptM σ ι Unit
  /-- How many of the listeners, or of the step rules, that are added while these are being called
  are called as well, before their calls are given up. -/
  patience : Nat := 10000

namespace World

variable {σ ι : Type}

/-- A world over a registry that serves no interpreter yet, with a log of the given capacity. -/
def fresh (host : σ) (registry : Registry ι) (capacity : Int) (verbose : Bool) :
    Except Trouble (World σ ι) := do
  let registry ← registry.attach.mapError Trouble.extension
  if capacity < 0 then throw .negativeCapacity
  return { host, registry, log := { capacity := capacity.toNat }, verbose }

/-- The script with a number. -/
def script (w : World σ ι) (i : Nat) : Script ι := w.scripts.getD i default

/-- Changes the script with a number. -/
def modifyScript (w : World σ ι) (i : Nat) (f : Script ι → Script ι) : World σ ι :=
  { w with scripts := w.scripts.modify i f }

/-- The active script. -/
def activeScript? (w : World σ ι) : Option (Script ι) := w.active.map w.script

/-- Changes the active script, if there is one. -/
def modifyActive (w : World σ ι) (f : Script ι → Script ι) : World σ ι :=
  match w.active with
  | some i => w.modifyScript i f
  | none => w

end World

namespace ScriptM

variable {σ ι α : Type}

/-- The answer of a computation that does not look at the world. -/
def lift : Except Fault α → ScriptM σ ι α
  | .ok v => pure v
  | .error fault => throw fault

/-- Runs an operation and answers how it went. -/
def attempt (x : ScriptM σ ι α) : ScriptM σ ι (Except Fault α) := fun w =>
  match x w with
  | .ok v w' => .ok (.ok v) w'
  | .error fault w' => .ok (.error fault) w'

/-- Runs an operation, changing the fault with which it may fail. -/
def mapFault (f : Fault → Fault) (x : ScriptM σ ι α) : ScriptM σ ι α := fun w =>
  match x w with
  | .ok v w' => .ok v w'
  | .error fault w' => .error (f fault) w'

/-- Stops with a script error. -/
def fail (site : Option Site) (cause : Cause) : ScriptM σ ι α := throw (.at site cause)

/-- The script with a number. -/
def script (i : Nat) : ScriptM σ ι (Script ι) := do return (← get).script i

/-- Changes the script with a number. -/
def modifyScript (i : Nat) (f : Script ι → Script ι) : ScriptM σ ι Unit :=
  modify fun w => w.modifyScript i f

end ScriptM

end Cadence
