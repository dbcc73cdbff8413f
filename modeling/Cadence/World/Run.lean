/-
  A RUN — ticks of one script until it ends, with a sleep between each two.

  A run ends when a tick says that the script may have no more, or when the number of ticks has
  reached a cap; then the script is stopped.  It answers how many ticks there were.  A script may
  never end, so a run is given a number of ticks that it may use at most, and answers nothing when
  that is not enough.
-/
import Cadence.World.Tick

namespace Cadence

open ScriptM

section

variable {σ ι : Type} (host : Host σ ι) (i : Nat)

/-- Is a number of ticks the last one that the cap allows? -/
def capReached (cap : Option Int) (ticks : Nat) : Bool :=
  match cap with
  | none => false
  | some k => k ≤ ticks

/-- Runs one more tick; the answer says whether the run goes on. -/
def runTick (cap : Option Int) (ticks : Nat) : ScriptM σ ι Bool := do
  if !(← tick host i) then return false
  if capReached cap ticks then
    modify World.stopActive
    return false
  return true

/-- A run that has used some ticks and may use `more` of them. -/
def runFrom (rest : Duration) (cap : Option Int) (sleep : Float → ScriptM σ ι Unit) :
    (more : Nat) → (ticks : Nat) → ScriptM σ ι (Option Nat)
  | 0, _ => return none
  | more + 1, ticks => do
    if ← runTick host i cap (ticks + 1) then
      if rest.positive then sleep (← seconds rest)
      runFrom rest cap sleep more (ticks + 1)
    else return some (ticks + 1)

/-- A run of at most `most` ticks; the answer is the number of ticks, if it ended. -/
def run (rest : Duration) (cap : Option Int) (sleep : Float → ScriptM σ ι Unit) (most : Nat) :
    ScriptM σ ι (Option Nat) :=
  runFrom host i rest cap sleep most 0

end

end Cadence
