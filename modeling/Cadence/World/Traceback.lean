/-
  TRACEBACKS — a script error as a report.

  A report says in which script and on which line the error arose, which statement stands there,
  which step of the log came last in that script, and how deep the script stands in frames and
  jumps.  The script is the one asked for, else the active one.
-/
import Cadence.World.Basic
import Cadence.Json.Printer

namespace Cadence.World

variable {σ ι : Type}

/-- The name of script errors in reports. -/
def errorType : String := "ScriptRuntimeError"

/-- The number of steps that a report looks back. -/
def recentSteps : Nat := 10

/-- The script of a report. -/
def reported? (w : World σ ι) (i : Option Nat) : Option (Script ι) := (i <|> w.active).map w.script

/-- The name of the script of a report. -/
def reportedName (w : World σ ι) (i : Option Nat) : String :=
  ((w.reported? i).map Script.name).getD "<script>"

/-- The statement that an error lies in. -/
def failing? (e : ScriptError) : Option Site := e.site.bind Site.statement?

/-- The lines of a report. -/
def tracebackLines (w : World σ ι) (e : ScriptError) (verbose : Bool) (i : Option Nat) :
    List String :=
  let name := w.reportedName i
  let place := match failing? e with
    | some t => ["  Script \"" ++ name ++ "\", line " ++ intText t.line, "    " ++ t.node.render]
    | none => ["  <unknown location> in " ++ name]
  let entry := w.log.lastOf? name
  let state := match entry with
    | some e => ["    State log index: " ++ Nat.repr e.index ++ "  State id: " ++ e.stateId]
    | none => []
  let scope := match verbose, entry.bind LogEntry.snapshot with
    | true, some t =>
      ["    Scope snapshot: " ++ ", ".intercalate (t.entries.map fun v => v.1 ++ "=" ++ v.2)]
    | _, _ => []
  let depth := match verbose, w.reported? i with
    | true, some s =>
      ["    Scope depth: " ++ Nat.repr s.frames.depth ++ "  Goto depth: " ++ Nat.repr s.returnDepth]
    | _, _ => []
  "Traceback (most recent call last):" :: place ++ state ++ scope ++ depth
    ++ [errorType ++ ": " ++ e.message]

/-- A report as text. -/
def traceback (w : World σ ι) (e : ScriptError) (verbose : Bool) (i : Option Nat) : String :=
  "\n".intercalate (w.tracebackLines e verbose i)

/-- The last steps of the log that belong to a script. -/
def recent (w : World σ ι) (name : String) : List LogEntry :=
  (w.log.entries.drop (w.log.entries.length - recentSteps)).filter fun e => e.script = name

/-- A step in a report. -/
def stepJson (e : LogEntry) : Json :=
  .object [("step_index", .int e.index), ("state_id", .text e.stateId), ("line", .int e.line),
    ("statement", .text e.statement)]

/-- A report as a value. -/
def tracebackValue (w : World σ ι) (e : ScriptError) (i : Option Nat) : Json :=
  let name := w.reportedName i
  let location : Json := match failing? e with
    | some t =>
      .object [("script", .text name), ("line", .int t.line), ("statement", .text t.node.render)]
    | none => .null
  let depth := match w.reported? i with
    | some s =>
      [("depth", Json.object [("scope", .int s.frames.depth), ("goto", .int s.returnDepth)])]
    | none => []
  .object ([("error", .object
      [("type", .text errorType), ("message", .text e.message),
       ("failing_step_index", (e.step.map fun n => Json.int n).getD .null),
       ("source_location", location)]),
    ("recent_steps", .array ((w.recent name).map stepJson))] ++ depth)

/-- A report as JSON. -/
def tracebackJson (w : World σ ι) (e : ScriptError) (i : Option Nat) : String :=
  (w.tracebackValue e i).printAscii

end Cadence.World
