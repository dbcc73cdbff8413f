/-
  FRAMES — the scopes that a running script stands in.

  A frame binds variables; all but the outermost were opened by a statement, and that of a loop
  counts its passes.  There is always an outermost frame, so a chain of frames is a frame and the
  frames outside it.
-/
import Cadence.Scope
import Cadence.Script.Argument

namespace Cadence

/-- The count of a loop. -/
structure Count where
  /-- The number of the current pass, from zero. -/
  index : Nat := 0
  /-- The number of passes, if it is fixed on entry. -/
  bound : Option Int := none
deriving Repr

/-- One scope of a running script. -/
structure Frame where
  /-- The statement that opened it. -/
  start : Option Statement := none
  /-- Its variables. -/
  vars : Table Argument := .empty
  /-- The count, if it belongs to a loop that counts. -/
  loop : Option Count := none
deriving Repr, Inhabited

/-- Was the frame opened by this statement? -/
def Frame.openedBy (f : Frame) (s : Statement) : Bool :=
  match f.start with
  | some t => t.same s
  | none => false

/-- A frame and the frames outside it. -/
structure Frames where
  /-- The innermost frame. -/
  top : Frame := {}
  /-- The frames outside, innermost first. -/
  outer : List Frame := []
deriving Repr, Inhabited

namespace Frames

/-- All frames, innermost first. -/
def toList (c : Frames) : List Frame := c.top :: c.outer

/-- The bindings of all frames, innermost first. -/
def bindings (c : Frames) : List (Table Argument) := c.toList.map Frame.vars

/-- Opens a frame. -/
def push (c : Frames) (start : Statement) : Frames := ⟨{ start := some start }, c.toList⟩

/-- Closes the innermost frame; the outermost stays. -/
def pop (c : Frames) : Frames :=
  match c.outer with
  | [] => c
  | f :: rest => ⟨f, rest⟩

/-- The outermost frame alone. -/
def bottom (c : Frames) : Frames := ⟨c.outer.getLastD c.top, []⟩

/-- The frames from the nearest one that the statement opened. -/
def from? (s : Statement) (top : Frame) : List Frame → Option Frames
  | [] => if top.openedBy s then some ⟨top, []⟩ else none
  | f :: rest => if top.openedBy s then some ⟨top, f :: rest⟩ else from? s f rest

/-- Closes every frame inside the nearest one that the statement opened, and that one too if asked.
Without such a frame nothing is closed. -/
def unwind (c : Frames) (s : Statement) (inclusive : Bool) : Frames :=
  match from? s c.top c.outer with
  | none => c
  | some d => if inclusive then d.pop else d

/-- Changes the innermost frame. -/
def mapTop (c : Frames) (f : Frame → Frame) : Frames := { c with top := f c.top }

/-- The number of frames outside the innermost. -/
def depth (c : Frames) : Nat := c.outer.length

@[simp] theorem pop_push (c : Frames) (s : Statement) : (c.push s).pop = c := rfl

@[simp] theorem depth_push (c : Frames) (s : Statement) : (c.push s).depth = c.depth + 1 := rfl

end Frames

end Cadence
