/-
  The PROGRAM — the command line at a terminal.
-/
import Cadence.CommandLine.Session

namespace Cadence.Terminal

/-- What stands at a path of the real disk. -/
def look (path : String) : IO Found := do
  try return .file (← IO.FS.readFile path)
  catch
    | .inappropriateType _ code _ => return if code = 21 then .directory else .notDirectory
    | .invalidArgument .. => return .tooLong
    | _ => return .missing

/-- The real disk.  The bundled extension is part of the program and stands beside it by name
only. -/
def disk : IO (Disk IO) := do
  let here := (← IO.currentDir).toString
  let bundled := Path.join (Path.directory (← IO.appPath).toString) "ext"
  let flow := Path.join bundled "flow.py"
  return { here, bundled, look := fun path => if path = flow then return .file "" else look path }

/-- Waits for some seconds. -/
def sleep (seconds : Float) : IO Unit := IO.sleep (seconds * 1000).ceil.toUInt32

/-- The surroundings of a program at a terminal. -/
def surroundings : IO (CommandLine.Surroundings IO) := do
  return {
    disk := ← disk
    now := return (← IO.monoNanosNow).toFloat / 1000000000
    sleep
    write := fun line => do
      IO.println line
      (← IO.getStdout).flush
    complain := fun line => IO.eprintln line }

/-- More ticks than any session lasts. -/
def mostTicks : Nat := 4000000000000000000

end Cadence.Terminal

/-- The program: its arguments are the command line, its answer the exit code. -/
def main (args : List String) : IO UInt32 := do
  let s ← Cadence.Terminal.surroundings
  let code ← Cadence.CommandLine.perform s Cadence.Terminal.mostTicks args
  return (code.getD 1).toUInt32
