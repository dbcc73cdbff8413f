/-
  The REGISTRY — which words, listeners and rules extensions have added.

  A word is looked up in its table each time it is used, and the last registration of a word
  counts.  The listeners of an event are kept in the order in which they are called: the higher
  priority first, and among equals the earlier registration.  Step rules are called in the order of
  registration.

  A registry serves one interpreter: attaching it to a second is an error, and an extension that
  asks for the interpreter before there is one gets an error.

  What the host supplies is known here only by a token; the host says what each token does.
-/
import Cadence.Table
import Cadence.Fault
import Cadence.Bundled.Words

namespace Cadence

/-- What a word does: something bundled, or something of the host. -/
inductive Handler (β ι : Type) where
  /-- A bundled word. -/
  | bundled (word : β)
  /-- A word of the host. -/
  | host (token : ι)
deriving Repr

/-- Something that is called when an event happens. -/
structure Listener (ι : Type) where
  /-- Higher priorities are called first. -/
  priority : Int
  /-- What the host does. -/
  token : ι
deriving Repr

/-- Something that is called after every so many steps. -/
structure Rule (ι : Type) where
  /-- The number of steps. -/
  every : Nat
  /-- What the host does. -/
  token : ι
deriving Repr

/-- What an extension says of itself. -/
structure Metadata where
  /-- Its name. -/
  name : String
  /-- Its version. -/
  version : String := "0.0.0"
  /-- The version of the interface that it is made for. -/
  interface : Int := interfaceVersion
deriving Repr

/-- Everything that extensions have added. -/
structure Registry (ι : Type) where
  /-- Commands by their words. -/
  commands : Table (Handler Bundled.Command ι) := .empty
  /-- Expressions by their words. -/
  expressions : Table (Handler Bundled.Query ι) := .empty
  /-- Computed aliases by their names. -/
  aliases : Table ι := .empty
  /-- Listeners by the event they listen to, in the order in which they are called. -/
  listeners : Table (List (Listener ι)) := .empty
  /-- Step rules, in the order in which they are called. -/
  rules : List (Rule ι) := []
  /-- What the extensions say of themselves. -/
  metadata : List Metadata := []
  /-- Does it serve an interpreter? -/
  attached : Bool := false

namespace Registry

variable {ι : Type}

instance : Inhabited (Registry ι) := ⟨{}⟩

/-- A word that may be registered: a text that is not empty. -/
def checkKeyword (register : Register) (keyword : Option String) : Except ExtensionError String :=
  match keyword with
  | none => .error (.badKeyword register)
  | some k => if k = "" then .error (.badKeyword register) else .ok k

/-- Registers a command. -/
def addCommand (r : Registry ι) (keyword : Option String) (h : Handler Bundled.Command ι) :
    Except ExtensionError (Registry ι) :=
  (checkKeyword .command keyword).map fun k => { r with commands := r.commands.insert k h }

/-- Registers an expression. -/
def addExpression (r : Registry ι) (keyword : Option String) (h : Handler Bundled.Query ι) :
    Except ExtensionError (Registry ι) :=
  (checkKeyword .expression keyword).map fun k => { r with expressions := r.expressions.insert k h }

/-- Registers a computed alias. -/
def addAlias (r : Registry ι) (keyword : Option String) (token : ι) :
    Except ExtensionError (Registry ι) :=
  (checkKeyword .computedAlias keyword).map fun k => { r with aliases := r.aliases.insert k token }

/-- Forgets a computed alias. -/
def removeAlias (r : Registry ι) (keyword : String) : Registry ι :=
  { r with aliases := r.aliases.erase keyword }

/-- Puts a listener behind those with the same or a higher priority. -/
def place (l : Listener ι) : List (Listener ι) → List (Listener ι)
  | [] => [l]
  | m :: rest => if l.priority ≤ m.priority then m :: place l rest else l :: m :: rest

/-- The listeners of an event, in the order in which they are called. -/
def listenersOf (r : Registry ι) (event : String) : List (Listener ι) :=
  (r.listeners.get? event).getD []

/-- Adds a listener to an event. -/
def listen (r : Registry ι) (event : String) (l : Listener ι) : Registry ι :=
  { r with listeners := r.listeners.insert event (place l (r.listenersOf event)) }

/-- Does anything listen to an event? -/
def hasListeners (r : Registry ι) (event : String) : Bool := !(r.listenersOf event).isEmpty

/-- Adds a step rule. -/
def addRule (r : Registry ι) (every : Int) (token : ι) : Except ExtensionError (Registry ι) :=
  if every ≤ 0 then .error .badInterval
  else .ok { r with rules := r.rules ++ [{ every := every.toNat, token }] }

/-- Makes the registry serve an interpreter. -/
def attach (r : Registry ι) : Except ExtensionError (Registry ι) :=
  if r.attached then .error .alreadyAttached else .ok { r with attached := true }

/-- The registry for an extension that needs the interpreter. -/
def requireAttached (r : Registry ι) (extension : String) : Except ExtensionError (Registry ι) :=
  if r.attached then .ok r else .error (.notAttached extension)

/-- Adds what an extension says of itself. -/
def describe (r : Registry ι) (m : Metadata) : Registry ι :=
  { r with metadata := r.metadata ++ [m] }

/-- Adds the words of the bundled extension and what it says of itself. -/
def addBundled (r : Registry ι) : Registry ι :=
  { r with
    commands := Bundled.commands.foldl (fun t c => t.insert c.1 (.bundled c.2)) r.commands
    expressions := Bundled.queries.foldl (fun t q => t.insert q.1 (.bundled q.2)) r.expressions
    metadata := r.metadata ++ [{ name := "flow", version := "1.0.0" }] }

end Registry

end Cadence
