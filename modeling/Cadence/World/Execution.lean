/-
  EXECUTION of one statement.

  The first token of a statement says what it is.  A start of a choice or of a loop opens a frame
  before its guard is asked; an end of a choice closes the innermost frame; an end of a loop goes
  back to the header, which finds its own frame there and counts.  Break and continue close the
  frames inside their loop.  A command goes on to the next statement when its handler says so.

  A statement that fails leaves behind what it did before it failed.
-/
import Cadence.World.Evaluation

namespace Cadence

open ScriptM

section

variable {σ ι : Type} (host : Host σ ι) (i : Nat)

/-- Goes on with the next statement. -/
def advance : ScriptM σ ι Unit := modifyScript i Script.advance

/-- Puts the cursor on a statement, or at the end of the script. -/
def moveTo (t : Option Statement) : ScriptM σ ι Unit :=
  modifyScript i fun s => { s with cursor := t }

/-- Opens a frame for a statement. -/
def pushFrame (t : Statement) : ScriptM σ ι Unit := modifyScript i (·.pushFrame t)

/-- Is the innermost frame the statement's own? -/
def standsIn (t : Statement) : ScriptM σ ι Bool := return (← script i).frames.top.openedBy t

/-! ## Choices -/

/-- Enters the first branch that holds, or goes to the end of the choice. -/
def enterBranch (fallback : Statement) : List Statement → ScriptM σ ι Unit
  | [] => moveTo i (some fallback)
  | branch :: rest =>
    match branch.head? with
    | none => enterBranch fallback rest
    | some head => do
      if head.kind = .elseStart then moveTo i branch.next?
      else if ← evaluateGuard host i head then moveTo i branch.next?
      else enterBranch fallback rest

/-- The start of a choice. -/
def executeIf (t : Statement) (head : Site) : ScriptM σ ι Unit := do
  pushFrame i t
  if ← evaluateGuard host i head then advance i
  else
    let s ← script i
    match s.choiceEnd? t with
    | none => fail (some head) .unclosedChoice
    | some fallback =>
      modifyScript i Script.clearTimeout
      enterBranch host i fallback (s.branches t)

/-- A further branch, reached from the one before it. -/
def skipBranch (t : Statement) (head : Site) : ScriptM σ ι Unit := do
  match (← script i).branchEnd? t with
  | none => fail (some head) .unclosedChoice
  | some fallback =>
    modifyScript i Script.clearTimeout
    moveTo i (some fallback)

/-! ## Loops -/

/-- Leaves a loop from its header. -/
def exitLoop (t : Statement) (head : Site) : ScriptM σ ι Unit := do
  match (← script i).loopEnd? t with
  | none => fail (some head) (.unclosedLoop head.kind)
  | some fallback =>
    modifyScript i Script.popFrame
    moveTo i (some fallback)
    advance i

/-- The header of a guarded loop. -/
def executeWhile (t : Statement) (head : Site) : ScriptM σ ι Unit := do
  if !(← standsIn i t) then pushFrame i t
  if ← evaluateGuard host i head then advance i
  else exitLoop i t head

/-- Counts one more pass in the innermost frame. -/
def countPass : ScriptM σ ι Unit := do
  match (← script i).frames.top.loop with
  | none => throw (.trouble .missingFrame)
  | some c =>
    modifyScript i (·.mapTop fun f => { f with loop := some { c with index := c.index + 1 } })

/-- Starts to count passes in the innermost frame. -/
def startCount (bound : Option Int) : ScriptM σ ι Unit :=
  modifyScript i (·.mapTop fun f => { f with loop := some { bound } })

/-- Is a pass of a counted loop left? -/
def Count.continues (c : Count) : Bool :=
  match c.bound with
  | none => false
  | some n => c.index < n

/-- Where the header of a counted loop leads: into the body, as long as the count says so. -/
def followCount (t : Statement) (head : Site) : ScriptM σ ι Unit := do
  match (← script i).frames.top.loop with
  | none => exitLoop i t head
  | some c => if c.continues then advance i else exitLoop i t head

/-- The header of a counted loop. -/
def executeFor (t : Statement) (head : Site) : ScriptM σ ι Unit := do
  match head.firstChild? with
  | none => fail (some head) .badCount
  | some bound =>
    if bound.kind ≠ .integer then fail (some bound) .badCount
    else
      if !(← standsIn i t) then
        pushFrame i t
        startCount i (some (← reading fun w => w.asUInt ⟨i, bound⟩))
      else countPass i
      followCount i t head

/-- The element of a list that a pass is about; a failure is reported at the list's name. -/
def listElement (list : Site) (listName : String) (index : Nat) :
    ScriptM σ ι (Option Argument) :=
  mapFault
    (fun
      | .script e => .script { e with site := e.site <|> some list }
      | fault => fault)
    (reading fun w => w.listValue listName index)

/-- Where the header of a loop over a list leads: into the body, as long as there is an element. -/
def followElement (t : Statement) (head : Site) (name : String) (list : Site)
    (listName : String) : ScriptM σ ι Unit := do
  let index := ((← script i).frames.top.loop.map Count.index).getD 0
  match ← listElement list listName index with
  | some a =>
    modifyScript i (·.setVar name a)
    advance i
  | none =>
    modifyScript i (·.clearVar name)
    exitLoop i t head

/-- The header of a loop over a list. -/
def executeForEach (t : Statement) (head : Site) : ScriptM σ ι Unit := do
  match head.children.map fun c => (c, c.lexeme) with
  | (_, some name) :: (list, some listName) :: _ =>
    if !(← standsIn i t) then
      pushFrame i t
      startCount i none
    else countPass i
    followElement i t head name list listName
  | _ => fail (some head) .badForEach

/-- The end of a loop. -/
def executeLoopEnd (t : Statement) (head : Site) : ScriptM σ ι Unit := do
  match (← script i).loopHeader? t with
  | none => fail (some head) (.unexpected head.kind)
  | some header => moveTo i (some header)

/-- Leaving a loop from inside. -/
def executeBreak (t : Statement) (head : Site) : ScriptM σ ι Unit := do
  let s ← script i
  match s.breakHeader? t, s.breakEnd? t with
  | some header, some fallback =>
    modifyScript i fun s => { s with frames := s.frames.unwind header true }
    moveTo i (some fallback)
    advance i
  | _, _ => fail (some head) (.unexpected head.kind)

/-- Going on with the next pass of a loop from inside. -/
def executeContinue (t : Statement) (head : Site) : ScriptM σ ι Unit := do
  match (← script i).continueTarget? t with
  | none => fail (some head) (.unexpected head.kind)
  | some header =>
    modifyScript i fun s => { s with frames := s.frames.unwind header false }
    moveTo i (some header)

/-! ## The rest -/

/-- Back to the first statement, in the outermost frame. -/
def executeReplay (t : Statement) : ScriptM σ ι Unit :=
  modifyScript i fun s =>
    { s with
      frames := s.frames.bottom
      cursor := (t.site.parent?.bind Site.firstChild?).map fun site => { t with site } }

/-- Runs the handler of a command; the answer says whether the script goes on. -/
def callCommand (h : Handler Bundled.Command ι) (word : String) (args : List Argument)
    (marks : Marks) : ScriptM σ ι Bool :=
  match h with
  | .bundled c => Bundled.runCommand host c args marks.force
  | .host token => return (← host.command token word args marks.quiet marks.force).truthy

/-- A command, given by its tokens; the answer says whether the script goes on. -/
def executeCommand (tokens : List Site) : ScriptM σ ι Bool := do
  let (marks, tokens) := takeMarks {} tokens
  match keyword? tokens with
  | none => fail tokens.head? .invalidCommand
  | some (t, word, rest) =>
    match (← get).registry.commands.get? word with
    | none => fail (some t) .unknownCommand
    | some h =>
      let (args, rest) := takeArguments i rest
      match rest with
      | extra :: _ => fail (some extra) .leftoverArguments
      | [] => callCommand host h word args marks

/-- A statement whose first token is given. -/
def executeHead (t : Statement) (head : Site) : ScriptM σ ι Unit :=
  match head.kind with
  | .ifStart => executeIf host i t head
  | .elseIf | .elseStart => skipBranch i t head
  | .ifEnd => do
    modifyScript i Script.popFrame
    advance i
  | .whileStart => executeWhile host i t head
  | .forStart => executeFor i t head
  | .forEachStart => executeForEach i t head
  | .whileEnd | .forEnd => executeLoopEnd i t head
  | .breakLoop => executeBreak i t head
  | .continueLoop => executeContinue i t head
  | .stop => moveTo i none
  | .replay => executeReplay i t
  | .command | .quiet | .force | .negate => do
    if ← executeCommand host i t.site.children then advance i
  | _ => fail (some head) .invalidStatement

/-- A statement. -/
def executeStatement (t : Statement) : ScriptM σ ι Unit :=
  if t.site.kind ≠ .statement then fail (some t.site) .invalidScript
  else
    match t.head? with
    | none => fail (some t.site) .invalidStatement
    | some head => executeHead host i t head

/-- Runs the statement under the cursor of a script; the answer says whether there is one to run
next. -/
def executeNext : ScriptM σ ι Bool := do
  match (← script i).cursor with
  | none => return false
  | some t =>
    executeStatement host i t
    return (← script i).isRunning

end

end Cadence
