/-
  What the BUNDLED WORDS do.

  Each command first resolves its arguments, in the order in which it needs them, and then makes one
  change.  Numbers of objects go into lists as their decimal text, so that a later change of an
  alias does not touch the entry; an entry is found again by its text.  A jump that finds its line
  must not go on to the statement after it, and a wait for the journal stays on its statement.
-/
import Cadence.World.Resolve

namespace Cadence.Bundled

open ScriptM

variable {σ ι : Type}

/-- How the words are used. -/
def Command.usage : Command → String
  | .sysmsg => "sysmsg 'message text'"
  | .pause => "pause 'duration'"
  | .setAlias => "setalias 'name' 'serial'"
  | .unsetAlias => "unsetalias 'name'"
  | .setTimer => "settimer 'timer name' 'duration'"
  | .removeTimer => "removetimer 'timer name'"
  | .createList => "createlist 'name'"
  | .removeList => "removelist 'name'"
  | .clearList => "clearlist 'name'"
  | .pushList => "pushlist 'name' 'value' [front]"
  | .popList => "poplist 'name' 'value'|'front'|'back'"
  | .waitForJournal => "waitforjournal 'search text' 'duration'"
  | .ignoreObject => "ignoreobject 'serial'"
  | .goto => "goto 'linenum'"
  | .clearJournal => "clearjournal"
  | .clearIgnoreList => "clearignorelist"
  | .return_ => "return"

/-- How the queries are used. -/
def Query.usage : Query → String
  | .findAlias => "findalias 'name'"
  | .timerExpired => "timerexpired 'timer name'"
  | .timerExists => "timerexists 'timer name'"
  | .inList => "inlist 'name' 'value'"
  | .listExists => "listexists 'name'"
  | .listCount => "listcount 'name'"
  | .inJournal => "injournal 'search text'"
  | .ignored => "ignored 'serial'"
  | .true_ => "true"
  | .false_ => "false"

/-- A word was used with too few arguments. -/
def misused {α : Type} (form : String) : ScriptM σ ι α := fail none (.usage form)

/-- The text that an argument resolves to. -/
def string (a : Argument) : ScriptM σ ι String := reading fun w => w.asString a

/-- The signed number that an argument resolves to. -/
def int (a : Argument) : ScriptM σ ι Int := reading fun w => w.asInt a

/-- The texts that arguments resolve to. -/
def strings : List Argument → ScriptM σ ι (List String)
  | [] => return []
  | a :: rest => return (← string a) :: (← strings rest)

/-- How long a wait for the journal lasts if nothing else is said. -/
def journalWait : Int := 10000

/-- What goes into a list for an argument: the decimal text of the number of an object, anything
else as it is written. -/
def listEntry (host : Host σ ι) (a : Argument) : ScriptM σ ι Argument := do
  if ← isSerial host a then
    let n ← asSerial host a
    let digits ← lift (n.written.mapError fun f => .trouble (.number f))
    let node : Node := { kind := .serial, lexeme := some digits, line := a.site.line }
    return { owner := a.owner, site := .root node }
  else return a

/-- Puts a value into a list; with force only if the list has no entry of its text. -/
def push (host : Host σ ι) (list value : Argument) (more : List Argument) (force : Bool) :
    ScriptM σ ι Unit := do
  let front ← match more with
    | [] => pure false
    | side :: _ => do pure (decide (Text.fold (← string side) = "front"))
  let entry ← listEntry host value
  let name ← string list
  set (← reading fun w => w.pushList name entry front force)

/-- Takes a value out of a list, or the entry at an end. -/
def pop (list value : Argument) : ScriptM σ ι Unit := do
  let name ← string list
  let which := Text.fold (← lift value.text)
  if which = "front" ∨ which = "back" then
    set (← reading fun w => w.popList name (which = "front"))
  else modify fun w => (w.popListValue name value).getD w

/-- Waits until a text is in the journal; answers whether it is there. -/
def waitForJournal (text : Argument) (more : List Argument) : ScriptM σ ι Bool := do
  let wanted ← string text
  if (← get).searchJournal wanted then return true
  let wait ← match more with
    | [] => pure journalWait
    | d :: _ => int d
  timeout (.whole wait) (some .giveUp)
  return false

/-- Runs a bundled command; the answer says whether the script goes on. -/
def runCommand (host : Host σ ι) (c : Command) (args : List Argument) (force : Bool) :
    ScriptM σ ι Bool := do
  match c, args with
  | .sysmsg, a :: rest =>
    let words ← strings (a :: rest)
    host.write (" ".intercalate words)
    return true
  | .pause, d :: _ =>
    pause (.whole (← int d))
    return true
  | .setAlias, name :: serial :: _ =>
    let name ← string name
    let value ← asSerial host serial
    modify fun w => { w with aliases := w.aliases.insert name value }
    return true
  | .unsetAlias, name :: _ =>
    let name ← string name
    modify fun w => { w with aliases := w.aliases.erase name }
    return true
  | .setTimer, name :: d :: _ =>
    let name ← string name
    setTimer name (.whole (← int d))
    return true
  | .removeTimer, name :: _ =>
    let name ← string name
    modify fun w => w.removeTimer name
    return true
  | .createList, name :: _ =>
    let name ← string name
    modify fun w => w.createList name
    return true
  | .removeList, name :: _ =>
    let name ← string name
    modify fun w => w.destroyList name
    return true
  | .clearList, name :: _ =>
    let name ← string name
    modify fun w => w.clearList name
    return true
  | .pushList, list :: value :: more =>
    push host list value more force
    return true
  | .popList, list :: value :: _ =>
    pop list value
    return true
  | .clearJournal, _ =>
    modify fun w => w.modifyActive fun s => { s with journal := [] }
    return true
  | .waitForJournal, text :: more => waitForJournal text more
  | .ignoreObject, serial :: _ =>
    let v ← asSerial host serial
    modify fun w => w.ignore v
    return true
  | .clearIgnoreList, _ =>
    modify fun w => w.modifyActive fun s => { s with ignored := [] }
    return true
  | .goto, line :: _ => return !(← gotoLine (← int line))
  | .return_, _ =>
    modify fun w => w.modifyActive Script.returnFromGoto
    return true
  | c, _ => misused c.usage

/-- Evaluates a bundled query. -/
def runQuery (host : Host σ ι) (q : Query) (args : List Argument) : ScriptM σ ι Value := do
  match q, args with
  | .findAlias, name :: _ =>
    match ← getAlias host (← string name) with
    | .null => return .bool false
    | _ => return .bool true
  | .timerExpired, name :: _ => return .bool (← timerExpired (← string name))
  | .timerExists, name :: _ =>
    let name ← string name
    return .bool ((← get).timers.contains name)
  | .inList, list :: value :: _ =>
    let name ← string list
    return .bool ((← get).listContains name value)
  | .listExists, name :: _ =>
    let name ← string name
    return .bool ((← get).lists.contains name)
  | .listCount, name :: _ =>
    let name ← string name
    return .int ((← get).listLength name)
  | .inJournal, text :: _ =>
    let text ← string text
    return .bool ((← get).searchJournal text)
  | .ignored, serial :: _ =>
    let v ← asSerial host serial
    return .bool ((← get).isIgnored v)
  | .true_, _ => return .bool true
  | .false_, _ => return .bool false
  | q, _ => misused q.usage

end Cadence.Bundled
