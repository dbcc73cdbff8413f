/-
  A SESSION — what one command line does, from its options to its exit code.

  What lies outside is given as SURROUNDINGS: a disk, a clock, a way to sleep, and two outputs for
  lines.  A session is written once over them, so that it is the same at a terminal and in memory.

  The document is read first, then the extensions are loaded, then the script runs.  Whatever fails
  is complained about in words and ends the session with exit code one.  A script may never end, so
  a session is given a number of ticks that it may use at most, and has no exit code when that is
  not enough.
-/
import Cadence.CommandLine.Options
import Cadence.Document.Basic
import Cadence.Extension.Loading
import Cadence.World.Run
import Cadence.World.Traceback

namespace Cadence.CommandLine

/-- What lies outside of a session. -/
structure Surroundings (m : Type → Type) where
  /-- Where files are looked up. -/
  disk : Disk m
  /-- The reading of the clock in seconds. -/
  now : m Float
  /-- Waits for some seconds. -/
  sleep : Float → m Unit
  /-- Takes a line of output. -/
  write : String → m Unit
  /-- Takes a line of complaint. -/
  complain : String → m Unit

variable {m : Type → Type} [Monad m]

/-! ## Before the script runs -/

/-- The document that the options name. -/
def openDocument (disk : Disk m) (o : Options) : m (Except LoadError Document) := do
  if o.literal then return Document.parse o.document
  match ← disk.look o.document with
  | .file text => return Document.parse text
  | found => return .error (.unreadable o.document (found.complaint o.document))

/-- The world of a session keeps the lines that were written, last first. -/
abbrev Session := World (List String) Empty

/-- The world of a session with its one script. -/
def Session.start (d : Document) (r : Registry Empty) (verbose : Bool) : Except Trouble Session :=
  (World.fresh [] r StepLog.usualCapacity verbose).map fun w =>
    { w with scripts := #[.start d.name d.root] }

/-- The world in which the script of the options will run. -/
def prepare (disk : Disk m) (o : Options) : m (Except Trouble Session) := do
  match ← openDocument disk o with
  | .error why => return .error (.load why)
  | .ok document =>
    match ← (Extension.services disk o.extensions).run with
    | .error why => return .error (.extension why)
    | .ok registry => return Session.start document registry o.verbose

/-! ## While the script runs -/

/-- Nothing lies outside but a place for output. -/
def host : Host (List String) Empty where
  command := Empty.elim
  expression := Empty.elim
  computedAlias := Empty.elim
  listener := Empty.elim
  rule := Empty.elim
  callback := Empty.elim
  write line := modify fun w => { w with host := line :: w.host }

/-- Writes the lines that the script wrote. -/
def flush (s : Surroundings m) (w : Session) : m Session := do
  w.host.reverse.forM s.write
  return { w with host := [] }

/-- Runs a script that has used some ticks and may use `more` of them; the answer is the fault that
ended it, if one did. -/
@[specialize] def drive (s : Surroundings m) (o : Options) :
    (more : Nat) → (ticks : Nat) → Session → m (Option (Option Fault × Session))
  | 0, _, _ => return none
  | more + 1, ticks, w => do
    let now ← s.now
    match runTick host 0 o.cap (ticks + 1) { w with now } with
    | .error fault w => return some (some fault, ← flush s w)
    | .ok false w => return some (none, ← flush s w)
    | .ok true w =>
      let w ← flush s w
      if 0 < o.rest then s.sleep (o.rest / 1000)
      drive s o more (ticks + 1) w

/-! ## Reports -/

/-- The complaint about what keeps a script from running. -/
def complaintOf : Trouble → String
  | .load why => "LoadError: " ++ why.message
  | why => "ExtensionError: " ++ why.message

/-- The complaints about the fault that ended a script. -/
def complaints (o : Options) (w : Session) : Fault → List String
  | .script e =>
    w.traceback e o.verbose (some 0) :: (if o.json then [w.tracebackJson e (some 0)] else [])
  | .trouble why => [why.message]

/-- Runs what the options ask for, in at most so many ticks; the answer is the exit code. -/
def run (s : Surroundings m) (most : Nat) (o : Options) : m (Option Nat) := do
  match ← prepare s.disk o with
  | .error why =>
    s.complain (complaintOf why)
    return some 1
  | .ok w =>
    match ← drive s o most 0 w with
    | none => return none
    | some (none, _) => return some 0
    | some (some fault, w) =>
      (complaints o w fault).forM s.complain
      return some 1

/-! ## The whole command line -/

/-- How the command line is used. -/
def usage : String :=
  "\n".intercalate
    ["usage: [options] document", "",
     "Runs a script tick by tick.  The document is the path of a script.", "",
     "options:",
     "  -h, --help            show this text",
     "  -source, --source     the document is the text of a script",
     "  -e, --ext EXTENSION   load an extension: a path, the name of a bundled one,",
     "                        or a pointer file; may be repeated",
     "  --tick-ms MS          milliseconds between ticks (50)",
     "  --max-ticks COUNT     stop the script after so many ticks",
     "  -verbose, --verbose   show variables in tracebacks",
     "  --traceback-json      write tracebacks as JSON too"]

/-- Carries out a command line, in at most so many ticks; the answer is the exit code. -/
def perform (s : Surroundings m) (most : Nat) (args : List String) : m (Option Nat) := do
  match Options.ofArguments args with
  | .ok o => run s most o
  | .error .help =>
    s.write usage
    return some Refusal.help.code
  | .error (.misuse why) =>
    s.complain ("error: " ++ why.message)
    return some (Refusal.misuse why).code

end Cadence.CommandLine
