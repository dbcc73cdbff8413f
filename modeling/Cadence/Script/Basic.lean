/-
  A SCRIPT in the middle of its run.

  A script has a tree and a cursor on one of the tree's statements.  Around the cursor stand the
  frames, the points to go back to, the suspension with its deadline, a journal of the last fifty
  entries and a list of objects to ignore.  Everything here is a function on one script: where the
  cursor moves, and what happens to the suspension when it does.
-/
import Cadence.Script.Frame
import Cadence.Tree.Links
import Cadence.Value.Basic

namespace Cadence

/-- Is a script running, and if not, why? -/
inductive Activity where
  /-- It runs. -/
  | running
  /-- It rests until its deadline. -/
  | paused
  /-- Its statement waits for something, at most until its deadline. -/
  | timingOut
deriving Repr, DecidableEq, Inhabited

/-- The word for an activity. -/
def Activity.word : Activity → String
  | .running => "RUNNING"
  | .paused => "PAUSED"
  | .timingOut => "TIMING_OUT"

/-- What is asked when a deadline passes. -/
inductive Callback (ι : Type) where
  /-- Goes on with the next statement. -/
  | giveUp
  /-- Asks the host. -/
  | host (token : ι)
deriving Repr

/-- An entry of a journal. -/
structure JournalEntry where
  /-- What was said. -/
  text : String
  /-- Who said it. -/
  name : String := ""
deriving Repr, DecidableEq

/-- The number of entries that a journal holds. -/
def journalCapacity : Nat := 50

/-- A script in the middle of its run. -/
structure Script (ι : Type) where
  /-- The name of the script. -/
  name : String := "<script>"
  /-- The tree. -/
  root : Node := { kind := .script }
  /-- How often a tree was loaded before this one. -/
  load : Nat := 0
  /-- Which statements of the tree belong together. -/
  links : Links := {}
  /-- The statement to run next; none when the script is at its end. -/
  cursor : Option Statement := none
  /-- The frames. -/
  frames : Frames := {}
  /-- The statements that jumps came from, last first. -/
  returns : List Statement := []
  /-- Whether and why the script is suspended. -/
  activity : Activity := .running
  /-- The time at which a suspension ends. -/
  deadline : Option Float := none
  /-- What is asked when the deadline of a waiting statement passes. -/
  callback : Option (Callback ι) := none
  /-- Has the host asked for a target? -/
  targetRequested : Bool := false
  /-- The objects to ignore. -/
  ignored : List Value := []
  /-- The last entries, oldest first. -/
  journal : List JournalEntry := []
deriving Inhabited

namespace Script

variable {ι : Type}

/-! ## Statements of the tree -/

/-- The kind of the first token of a statement, if it has one. -/
def headKind (n : Node) : Option Kind := n.children.head?.map Node.kind

/-- The statement at a position. -/
def statementAt? (s : Script ι) (i : Nat) : Option Statement :=
  ((Site.root s.root).child? i).map fun site => { load := s.load, site }

/-- The position of a statement, if it belongs to the tree that is loaded now. -/
def position? (s : Script ι) (t : Statement) : Option Nat :=
  if t.load = s.load then t.site.index? else none

/-- The statement that a link leads to. -/
def linked? (s : Script ι) (t : Statement) (link : Nat → Option Nat) : Option Statement :=
  ((s.position? t).bind link).bind s.statementAt?

/-- The end of the choice that a statement starts. -/
def choiceEnd? (s : Script ι) (t : Statement) : Option Statement := s.linked? t s.links.choiceEnd?

/-- The further branches of the choice that a statement starts. -/
def branches (s : Script ι) (t : Statement) : List Statement :=
  match s.position? t with
  | none => []
  | some i => (s.links.branchesOf i).filterMap s.statementAt?

/-- The end of the choice that a branch belongs to. -/
def branchEnd? (s : Script ι) (t : Statement) : Option Statement := s.linked? t s.links.branchEnd?

/-- The end of the loop that a statement starts. -/
def loopEnd? (s : Script ι) (t : Statement) : Option Statement := s.linked? t s.links.loopEnd?

/-- The header of the loop that a statement closes. -/
def loopHeader? (s : Script ι) (t : Statement) : Option Statement := s.linked? t s.links.loopHeader?

/-- The header of the loop that a break leaves. -/
def breakHeader? (s : Script ι) (t : Statement) : Option Statement :=
  s.linked? t fun i => (s.links.breakTarget? i).map Prod.fst

/-- The end of the loop that a break leaves. -/
def breakEnd? (s : Script ι) (t : Statement) : Option Statement :=
  s.linked? t fun i => (s.links.breakTarget? i).map Prod.snd

/-- The header of the loop that a continue goes on with. -/
def continueTarget? (s : Script ι) (t : Statement) : Option Statement :=
  s.linked? t s.links.continueTarget?

/-- The statement on a line; the last one, if there are several. -/
def statementOn? (s : Script ι) (line : Int) : Option Statement :=
  (((Site.root s.root).children.filter fun site => site.line = line).getLast?).map fun site =>
    { load := s.load, site }

/-! ## Loading and starting -/

/-- The script at the start of a tree; what does not belong to the tree stays. -/
def loadTree (s : Script ι) (root : Node) (load : Nat) : Script ι :=
  let t := { s with root, load, links := .ofKinds (root.children.map headKind), frames := {} }
  { t with cursor := t.statementAt? 0 }

/-- A new script at the start of its tree. -/
def start (name : String) (root : Node) : Script ι := ({ name } : Script ι).loadTree root 0

/-- Loads another tree; a suspension, the journal and the ignore list stay. -/
def replace (s : Script ι) (root : Node) : Script ι :=
  { s.loadTree root (s.load + 1) with targetRequested := false, returns := [] }

/-- Back to the start of the tree, as if new. -/
def reset (s : Script ι) : Script ι :=
  { s with
    cursor := s.statementAt? 0, frames := {}, returns := [], activity := .running, deadline := none
    callback := none, targetRequested := false, ignored := [], journal := [] }

/-! ## Questions -/

/-- The line of the cursor; zero at the end. -/
def currentLine (s : Script ι) : Int := (s.cursor.map Statement.line).getD 0

/-- Is the cursor on a statement? -/
def isRunning (s : Script ι) : Bool := s.cursor.isSome

/-- Does the script rest? -/
def isPaused (s : Script ι) : Bool := s.activity = .paused

/-- The number of points to go back to. -/
def returnDepth (s : Script ι) : Nat := s.returns.length

/-- What a name is bound to. -/
def lookup (s : Script ι) (name : String) : Option Argument := Scope.lookup name s.frames.bindings

/-- Everything that is bound, as text. -/
def snapshot (s : Script ι) : Table String := Scope.snapshot Argument.lexeme s.frames.bindings

/-! ## Journal -/

/-- Adds an entry; the oldest is dropped when there are too many. -/
def addEntry (s : Script ι) (entry : JournalEntry) : Script ι :=
  let entries := s.journal ++ [entry]
  { s with journal := entries.drop (entries.length - journalCapacity) }

/-- Does a list of characters occur in another? -/
def occursIn (part : List Char) : List Char → Bool
  | [] => part.isEmpty
  | c :: rest => part.isPrefixOf (c :: rest) || occursIn part rest

/-- Does a text occur in an entry? -/
def searchJournal (s : Script ι) (text : String) : Bool :=
  s.journal.any fun e => occursIn text.toList e.text.toList

/-! ## Suspension -/

/-- Rests until a deadline; a suspended script stays as it is. -/
def pause (s : Script ι) (deadline : Float) : Script ι :=
  if s.activity = .running then { s with deadline := some deadline, activity := .paused } else s

/-- Ends a rest. -/
def unpause (s : Script ι) : Script ι :=
  if s.activity = .paused then { s with deadline := none, activity := .running } else s

/-- Lets the statement wait until a deadline; a suspended script stays as it is. -/
def timeout (s : Script ι) (deadline : Float) (callback : Option (Callback ι)) : Script ι :=
  if s.activity = .running then
    { s with deadline := some deadline, activity := .timingOut, callback }
  else s

/-- Ends the waiting of a statement. -/
def clearTimeout (s : Script ι) : Script ι :=
  if s.activity = .timingOut then
    { s with deadline := none, callback := none, activity := .running }
  else s

/-- Ends any suspension. -/
def release (s : Script ι) : Script ι :=
  { s with activity := .running, deadline := none, callback := none }

/-! ## The cursor -/

/-- Goes on with the next statement; a wait for the current one ends. -/
def advance (s : Script ι) : Script ι :=
  let s := s.clearTimeout
  { s with cursor := s.cursor.bind Statement.next? }

/-- Puts the cursor on a line, to come back later; `none` if there is no such line. -/
def gotoLine? (s : Script ι) (line : Int) : Option (Script ι) :=
  (s.statementOn? line).map fun t =>
    { s with cursor := some t, returns := s.cursor.toList ++ s.returns }

/-- Goes back to where the last jump came from. -/
def returnFromGoto (s : Script ι) : Script ι :=
  match s.returns with
  | [] => s
  | t :: rest => { s with cursor := some t, returns := rest }

/-- Opens a frame for a statement. -/
def pushFrame (s : Script ι) (t : Statement) : Script ι := { s with frames := s.frames.push t }

/-- Closes the innermost frame. -/
def popFrame (s : Script ι) : Script ι := { s with frames := s.frames.pop }

/-- Changes the innermost frame. -/
def mapTop (s : Script ι) (f : Frame → Frame) : Script ι := { s with frames := s.frames.mapTop f }

/-- Binds a variable in the innermost frame. -/
def setVar (s : Script ι) (name : String) (value : Argument) : Script ι :=
  s.mapTop fun f => { f with vars := f.vars.insert name value }

/-- Removes a variable from the innermost frame. -/
def clearVar (s : Script ι) (name : String) : Script ι :=
  s.mapTop fun f => { f with vars := f.vars.erase name }

end Script

end Cadence
