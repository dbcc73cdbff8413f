/-
  The STEP LOG — the statements that were run, in order, over all scripts.

  Every statement that a tick runs is a step with a number of its own, counted from zero over the
  whole interpreter.  The log keeps the last steps up to its capacity, and beside them the last step
  of each script, which stays known when it has left the log.
-/
import Cadence.Table

namespace Cadence

/-- A statement that was run. -/
structure LogEntry where
  /-- The number of the step. -/
  index : Nat
  /-- The name of the script. -/
  script : String
  /-- The line of the statement. -/
  line : Int
  /-- The statement as it might have been written. -/
  statement : String
  /-- The variables that were seen, if they were asked for. -/
  snapshot : Option (Table String)
deriving Repr

/-- The name of the state that a step leaves: its number in at least six digits. -/
def stateId (index : Nat) : String :=
  let ds := Nat.toDigits 10 index
  "s_" ++ String.ofList (List.replicate (6 - ds.length) '0' ++ ds)

/-- The name of the state that a step leaves. -/
def LogEntry.stateId (e : LogEntry) : String := Cadence.stateId e.index

/-- The number of steps that a log keeps unless it is told otherwise. -/
def StepLog.usualCapacity : Nat := 1000

/-- The last steps. -/
structure StepLog where
  /-- The number of steps that are kept. -/
  capacity : Nat := StepLog.usualCapacity
  /-- The steps that are kept, oldest first. -/
  entries : List LogEntry := []
  /-- The number of the next step. -/
  next : Nat := 0
  /-- The last step of each script. -/
  last : Table LogEntry := .empty
deriving Repr, Inhabited

namespace StepLog

/-- The name of the state that the last step left. -/
def lastStateId (l : StepLog) : String := if l.next = 0 then "seed" else stateId (l.next - 1)

/-- The entry of the next step. -/
def entry (l : StepLog) (script : String) (line : Int) (statement : String)
    (snapshot : Option (Table String)) : LogEntry :=
  { index := l.next, script, line, statement, snapshot }

/-- Adds the next step; the oldest is dropped when there are too many. -/
def record (l : StepLog) (e : LogEntry) : StepLog :=
  let entries := l.entries ++ [e]
  { l with
    entries := entries.drop (entries.length - l.capacity), next := l.next + 1
    last := l.last.insert e.script e }

/-- The last step of a script. -/
def lastOf? (l : StepLog) (script : String) : Option LogEntry := l.last.get? script

end StepLog

end Cadence
