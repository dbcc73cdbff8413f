/-
  The STORES — aliases, lists and timers, and what is asked of the active script.

  All scripts share the stores.  A list holds arguments as they were written, and finds them again
  by their text.  A timer that has run out is told once: asking for it removes it, and a timer that
  is not there counts as run out.  Starting a timer that still runs changes nothing.

  What concerns the active script does nothing when no script is active; only the suspensions
  insist on one.
-/
import Cadence.World.Basic
import Cadence.Number.Duration

namespace Cadence

namespace World

variable {σ ι : Type}

/-! ## Lists -/

/-- The list of a name, or a script error. -/
def requireList (w : World σ ι) (name : String) : Except Fault (List Argument) :=
  match w.lists.get? name with
  | some items => .ok items
  | none => .error (.at none (.noList name))

/-- Makes an empty list, unless there is one of the name. -/
def createList (w : World σ ι) (name : String) : World σ ι :=
  if w.lists.contains name then w else { w with lists := w.lists.insert name [] }

/-- Removes a list. -/
def destroyList (w : World σ ι) (name : String) : World σ ι :=
  { w with lists := w.lists.erase name }

/-- Removes all lists. -/
def clearAllLists (w : World σ ι) : World σ ι := { w with lists := .empty }

/-- Empties a list, if there is one. -/
def clearList (w : World σ ι) (name : String) : World σ ι :=
  { w with lists := w.lists.update name fun _ => [] }

/-- Is an argument of the same text in a list? -/
def listContains (w : World σ ι) (name : String) (a : Argument) : Bool :=
  ((w.lists.get? name).getD []).any (·.same a)

/-- The number of entries of a list; zero if there is none. -/
def listLength (w : World σ ι) (name : String) : Nat := ((w.lists.get? name).getD []).length

/-- Puts an argument at an end of a list; if asked, only when its text is not there yet. -/
def pushList (w : World σ ι) (name : String) (a : Argument) (front unique : Bool) :
    Except Fault (World σ ι) :=
  (w.requireList name).map fun items =>
    if unique && items.any (·.same a) then w
    else { w with lists := w.lists.insert name (if front then a :: items else items ++ [a]) }

/-- Removes the first entry with the text of an argument; none if there is no such entry. -/
def popListValue (w : World σ ι) (name : String) (a : Argument) : Option (World σ ι) :=
  let items := (w.lists.get? name).getD []
  if items.any (·.same a) then
    some { w with lists := w.lists.insert name (items.eraseP (·.same a)) }
  else none

/-- Removes the entry at an end of a list. -/
def popList (w : World σ ι) (name : String) (front : Bool) : Except Fault (World σ ι) :=
  (w.requireList name).bind fun items =>
    if items.isEmpty then .error (.at none (.emptyList name))
    else .ok { w with lists := w.lists.insert name (if front then items.tail else items.dropLast) }

/-- The entry at a position; none beyond either end. -/
def listValue (w : World σ ι) (name : String) (i : Int) : Except Fault (Option Argument) :=
  (w.requireList name).map fun items => if i < 0 then none else items[i.toNat]?

/-! ## Timers -/

/-- Has a timer run out?  One that has is removed. -/
def timerExpired (w : World σ ι) (name : String) : Bool × World σ ι :=
  match w.timers.get? name with
  | none => (true, w)
  | some expiry =>
    if expiry ≤ w.now then (true, { w with timers := w.timers.erase name }) else (false, w)

/-- Removes a timer. -/
def removeTimer (w : World σ ι) (name : String) : World σ ι :=
  { w with timers := w.timers.erase name }

end World

namespace ScriptM

variable {σ ι : Type}

/-- The seconds of a duration. -/
def seconds (d : Duration) : ScriptM σ ι Float :=
  lift (d.seconds.mapError fun f => .trouble (.number f))

/-- Has a timer run out?  One that has is removed. -/
def timerExpired (name : String) : ScriptM σ ι Bool := modifyGet fun w => w.timerExpired name

/-- Starts a timer, unless it still runs. -/
def setTimer (name : String) (d : Duration) : ScriptM σ ι Unit := do
  if (← get).timers.contains name then
    if !(← timerExpired name) then return
  let s ← seconds d
  modify fun w => { w with timers := w.timers.insert name (w.now + s) }

/-- The value that an alias stands for; no value if it is none.  A computed alias is asked first. -/
def getAlias (host : Host σ ι) (name : String) : ScriptM σ ι Value := do
  let stored : ScriptM σ ι Value := return ((← get).aliases.get? name).getD .null
  match (← get).registry.aliases.get? name with
  | none => stored
  | some token =>
    match ← host.computedAlias token name with
    | .null => stored
    | v => return v

/-! ## Suspension of one script -/

/-- Lets a script rest. -/
def pauseScript (i : Nat) (d : Duration) : ScriptM σ ι Unit := do
  if (← script i).activity = .running then
    let s ← seconds d
    modify fun w => w.modifyScript i (·.pause (w.now + s))

/-- Lets the statement of a script wait. -/
def timeoutScript (i : Nat) (d : Duration) (callback : Option (Callback ι)) :
    ScriptM σ ι Unit := do
  if (← script i).activity = .running then
    let s ← seconds d
    modify fun w => w.modifyScript i (·.timeout (w.now + s) callback)

/-! ## The active script -/

/-- The number of the active script, for an action that needs one. -/
def requireActive (action : String) : ScriptM σ ι Nat := do
  match (← get).active with
  | some i => return i
  | none => fail none (.inactive action)

/-- Lets the active script rest. -/
def pause (d : Duration) : ScriptM σ ι Unit := do pauseScript (← requireActive "pause") d

/-- Ends the rest of the active script. -/
def unpause : ScriptM σ ι Unit := do modifyScript (← requireActive "unpause") Script.unpause

/-- Lets the statement of the active script wait. -/
def timeout (d : Duration) (callback : Option (Callback ι)) : ScriptM σ ι Unit := do
  timeoutScript (← requireActive "timeout") d callback

/-- Ends the waiting of the active script. -/
def clearTimeout : ScriptM σ ι Unit := do
  modifyScript (← requireActive "clear_timeout") Script.clearTimeout

/-- Puts the cursor of a script on a line, if there is such a line. -/
def gotoScript (i : Nat) (line : Int) : ScriptM σ ι Bool := do
  match (← script i).gotoLine? line with
  | none => return false
  | some s =>
    modifyScript i fun _ => s
    return true

/-- Puts the cursor of the active script on a line, if there is such a line. -/
def gotoLine (line : Int) : ScriptM σ ι Bool := do
  match (← get).active with
  | none => return false
  | some i => gotoScript i line

end ScriptM

namespace World

variable {σ ι : Type}

/-- Is a value on the ignore list of the active script? -/
def isIgnored (w : World σ ι) (v : Value) : Bool :=
  match w.activeScript? with
  | some s => s.ignored.any (·.same v)
  | none => false

/-- Puts a value on the ignore list of the active script. -/
def ignore (w : World σ ι) (v : Value) : World σ ι :=
  w.modifyActive fun s =>
    if s.ignored.any (·.same v) then s else { s with ignored := s.ignored ++ [v] }

/-- Does a text occur in the journal of the active script? -/
def searchJournal (w : World σ ι) (text : String) : Bool :=
  match w.activeScript? with
  | some s => s.searchJournal text
  | none => false

/-- Has the host asked the active script for a target? -/
def isTargetRequested (w : World σ ι) : Bool :=
  match w.activeScript? with
  | some s => s.targetRequested
  | none => false

/-- No script is active any more; a wait of the active one ends. -/
def resetActive (w : World σ ι) : World σ ι :=
  { w.modifyActive Script.clearTimeout with active := none }

/-- No script is active any more; any suspension of the active one ends. -/
def stopActive (w : World σ ι) : World σ ι :=
  { w.modifyActive Script.release with active := none }

end World

end Cadence
