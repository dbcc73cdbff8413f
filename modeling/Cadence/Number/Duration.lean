/-
  DURATIONS in milliseconds, whole or real.

  Clocks and deadlines are reals in seconds.  A whole number of milliseconds is brought to the reals
  first, which fails when it lies beyond them.
-/
import Cadence.Number.Double

namespace Cadence

/-- A length of time in milliseconds. -/
inductive Duration where
  /-- A whole number of milliseconds. -/
  | whole (ms : Int)
  /-- A real number of milliseconds. -/
  | real (ms : Float)
deriving Repr

namespace Duration

/-- The milliseconds as a real. -/
def toReal : Duration → Except NumberFault Float
  | .whole ms => Double.ofInt? ms
  | .real ms => .ok ms

/-- The duration in seconds. -/
def seconds (d : Duration) : Except NumberFault Float := d.toReal.map (· / 1000)

/-- Is the duration longer than nothing? -/
def positive : Duration → Bool
  | .whole ms => 0 < ms
  | .real ms => 0 < ms

/-- Two durations one after the other. -/
def add : Duration → Duration → Except NumberFault Duration
  | .whole a, .whole b => .ok (.whole (a + b))
  | a, b => do return .real ((← a.toReal) + (← b.toReal))

end Duration

end Cadence
