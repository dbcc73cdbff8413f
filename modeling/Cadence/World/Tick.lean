/-
  A TICK — one chance for one script to run one statement.

  A tick makes its script the active one.  A script that rests waits until its deadline has come; a
  statement that waits is tried again until its deadline has come, and then the callback says
  whether the script goes on or is abandoned.  The statement itself stands between two events; its
  step is logged before it runs, and the step rules are called after it.  Whatever stops the
  statement leaves the tick as a script error with the statement's site and the step's number.
-/
import Cadence.World.Execution

namespace Cadence

open ScriptM

section

variable {σ ι : Type} (host : Host σ ι)

/-! ## Events and rules -/

/-- Calls the listeners of an event from a position on, as they stand when their turn comes. -/
def notifyFrom (e : Event) : (calls : Nat) → (position : Nat) → ScriptM σ ι Unit
  | 0, _ => return
  | calls + 1, position => do
    match ((← get).registry.listenersOf e.name)[position]? with
    | none => return
    | some l =>
      host.listener l.token e
      notifyFrom e calls (position + 1)

/-- Tells the listeners of an event; a trouble of theirs becomes a script error. -/
def emit (e : Event) : ScriptM σ ι Unit := do
  let count := ((← get).registry.listenersOf e.name).length
  mapFault
    (fun
      | .trouble why => .at none (.listenerFailed e.name why)
      | fault => fault)
    (notifyFrom host e (count + host.patience) 0)

/-- Calls the step rules from a position on, as they stand when their turn comes. -/
def applyRulesFrom (c : StepContext) : (calls : Nat) → (position : Nat) → ScriptM σ ι Unit
  | 0, _ => return
  | calls + 1, position => do
    match (← get).registry.rules[position]? with
    | none => return
    | some r =>
      if c.index % r.every = 0 then host.rule r.token c
      applyRulesFrom c calls (position + 1)

/-- Calls the step rules that are due; a trouble of theirs becomes a script error. -/
def applyRules (t : Statement) (c : StepContext) : ScriptM σ ι Unit := do
  let count := (← get).registry.rules.length
  mapFault
    (fun
      | .trouble why => .at (some t.site) (.ruleFailed why)
      | fault => fault)
    (applyRulesFrom host c (count + host.patience) 0)

/-! ## One statement -/

variable (i : Nat)

/-- Notes a statement in the log. -/
def logStep (t : Statement) : ScriptM σ ι LogEntry := do
  let w ← get
  let s := w.script i
  let seen := if w.verbose then some s.snapshot else none
  let e := w.log.entry s.name t.line t.site.node.render seen
  set { w with log := w.log.record e }
  return e

/-- The script has ended, and none is active. -/
def finish : ScriptM σ ι Unit := do
  modify fun w => { w with active := none }
  emit host (.scriptEnd i)

/-- The fault of a statement as a script error of that statement and its step. -/
def Fault.ofStep (t : Statement) (step : Nat) : Fault → ScriptError
  | .script e => { e with site := e.site <|> some t.site, step := some step }
  | .trouble why => { site := some t.site, cause := .interrupted why, step := some step }

/-- The rules and the event after a statement. -/
def afterStep (t : Statement) (e : LogEntry) : ScriptM σ ι Unit := do
  applyRules host t
    { index := e.index, script := (← script i).name, line := t.line
      keyword := t.head?.bind Site.lexeme }
  emit host (.afterStatement i t)

/-- Runs the statement under the cursor with everything around it. -/
def stepStatement (t : Statement) : ScriptM σ ι Bool := do
  emit host (.beforeStatement i t)
  let e ← logStep i t
  match ← attempt (executeNext host i) with
  | .error fault =>
    let error := fault.ofStep t e.index
    emit host (.onError i error)
    throw (.script error)
  | .ok alive =>
    afterStep host i t e
    if !alive then finish host i
    return alive

/-- Runs the statement under the cursor, or ends a script that has none. -/
def step : ScriptM σ ι Bool := do
  match (← script i).cursor with
  | some t => stepStatement host i t
  | none =>
    finish host i
    return false

/-! ## Suspended scripts -/

/-- The deadline of a suspended script. -/
def deadlineOf : ScriptM σ ι Float := do
  match (← script i).deadline with
  | some d => return d
  | none => throw (.trouble .missingDeadline)

/-- Asks a callback whether the script goes on. -/
def ask : Callback ι → ScriptM σ ι Bool
  | .giveUp => return true
  | .host token => return (← host.callback token).truthy

/-- The deadline of a waiting statement has passed. -/
def expire : ScriptM σ ι Bool := do
  let callback := (← script i).callback
  modifyScript i fun s => { s with callback := none }
  match callback with
  | none => pure ()
  | some c => if ← ask host c then advance i
  if (← script i).activity = .running then step host i
  else
    finish host i
    return false

/-- Gives a script the chance to run one statement; the answer says whether it may have more. -/
def tick : ScriptM σ ι Bool := do
  modify fun w => { w with active := some i }
  match (← script i).activity with
  | .running => step host i
  | .paused =>
    if (← get).now < (← deadlineOf i) then return true
    else
      modifyScript i Script.unpause
      step host i
  | .timingOut =>
    if (← deadlineOf i) ≤ (← get).now then expire host i
    else step host i

end

end Cadence
