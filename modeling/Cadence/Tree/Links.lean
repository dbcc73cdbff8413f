/-
  LINKS — which statements of a script belong together.

  The statements of a script stand in one list; what nests is told by keywords.  One pass from left
  to right with four stacks finds the partners.  Choices, guarded loops, and counted loops together
  with loops over lists nest INDEPENDENTLY of each other, each family closing its own innermost
  opening.  Break and continue see one more stack, on which every loop header opens and every loop
  end closes, whatever the family.

  A statement is named by its position in the list, and only the kind of its first token matters.
-/
import Cadence.Tree.Kind

namespace Cadence

/-- What belongs together in a list of statements, by position. -/
structure Links where
  /-- The starts of choices, in order. -/
  choices : List Nat := []
  /-- Each further branch with the start of its choice, in order. -/
  branches : List (Nat × Nat) := []
  /-- Each start of a choice that has an end, with that end. -/
  choiceEnds : List (Nat × Nat) := []
  /-- Each loop header that has an end, with that end. -/
  loopEnds : List (Nat × Nat) := []
  /-- Each break that leaves a loop, with the loop's header and end. -/
  breaks : List (Nat × (Nat × Nat)) := []
  /-- Each continue of a loop, with the loop's header. -/
  continues : List (Nat × Nat) := []
deriving Repr, DecidableEq, Inhabited

/-- The state of the pass: the links found, and what is open. -/
structure Linking where
  /-- What is found. -/
  links : Links := {}
  /-- The open choices, innermost first. -/
  openChoices : List Nat := []
  /-- The open guarded loops, innermost first. -/
  openWhiles : List Nat := []
  /-- The open counted loops and loops over lists, innermost first. -/
  openFors : List Nat := []
  /-- The loops open for break and continue, innermost first, each with the breaks that wait for
  its end. -/
  openLoops : List (Nat × List Nat) := []
deriving Repr, Inhabited

namespace Linking

/-- The pass meets a statement that opens or closes a choice or a loop, or stands in a choice. -/
def partner (s : Linking) (i : Nat) : Kind → Linking
  | .ifStart =>
    { s with links := { s.links with choices := s.links.choices ++ [i] }
             openChoices := i :: s.openChoices }
  | .elseIf | .elseStart =>
    match s.openChoices with
    | [] => s
    | c :: _ => { s with links := { s.links with branches := s.links.branches ++ [(i, c)] } }
  | .ifEnd =>
    match s.openChoices with
    | [] => s
    | c :: rest =>
      { s with links := { s.links with choiceEnds := s.links.choiceEnds ++ [(c, i)] }
               openChoices := rest }
  | .whileStart => { s with openWhiles := i :: s.openWhiles }
  | .forStart | .forEachStart => { s with openFors := i :: s.openFors }
  | .whileEnd =>
    match s.openWhiles with
    | [] => s
    | h :: rest =>
      { s with links := { s.links with loopEnds := s.links.loopEnds ++ [(h, i)] }
               openWhiles := rest }
  | .forEnd =>
    match s.openFors with
    | [] => s
    | h :: rest =>
      { s with links := { s.links with loopEnds := s.links.loopEnds ++ [(h, i)] }
               openFors := rest }
  | _ => s

/-- The pass meets a statement that opens, closes or leaves a loop of any family. -/
def escape (s : Linking) (i : Nat) (kind : Kind) : Linking :=
  if kind.isLoopStart then { s with openLoops := (i, []) :: s.openLoops }
  else if kind.isLoopEnd then
    match s.openLoops with
    | [] => s
    | (h, waiting) :: rest =>
      { s with
        links := { s.links with breaks := s.links.breaks ++ waiting.map fun b => (b, (h, i)) }
        openLoops := rest }
  else
    match kind, s.openLoops with
    | .breakLoop, (h, waiting) :: rest => { s with openLoops := (h, waiting ++ [i]) :: rest }
    | .continueLoop, (h, _) :: _ =>
      { s with links := { s.links with continues := s.links.continues ++ [(i, h)] } }
    | _, _ => s

/-- The pass meets a statement; an empty one has no kind. -/
def meet (s : Linking) (i : Nat) : Option Kind → Linking
  | none => s
  | some kind => (s.partner i kind).escape i kind

/-- The pass over the statements from position `i` on. -/
def run (s : Linking) (i : Nat) : List (Option Kind) → Linking
  | [] => s
  | k :: rest => (s.meet i k).run (i + 1) rest

end Linking

namespace Links

/-- The links of a list of statements, each given by the kind of its first token. -/
def ofKinds (kinds : List (Option Kind)) : Links := (({} : Linking).run 0 kinds).links

/-- The end of a choice. -/
def choiceEnd? (l : Links) (start : Nat) : Option Nat := l.choiceEnds.lookup start

/-- The further branches of a choice, in order. -/
def branchesOf (l : Links) (start : Nat) : List Nat :=
  (l.branches.filter fun b => b.2 = start).map Prod.fst

/-- The start of the choice that a branch belongs to. -/
def choiceOf? (l : Links) (branch : Nat) : Option Nat := l.branches.lookup branch

/-- The end of the choice that a branch belongs to. -/
def branchEnd? (l : Links) (branch : Nat) : Option Nat := (l.choiceOf? branch).bind l.choiceEnd?

/-- The end of a loop. -/
def loopEnd? (l : Links) (header : Nat) : Option Nat := l.loopEnds.lookup header

/-- The header of the loop that an end closes. -/
def loopHeader? (l : Links) (loopEnd : Nat) : Option Nat :=
  (l.loopEnds.find? fun e => e.2 = loopEnd).map Prod.fst

/-- The header and the end of the loop that a break leaves. -/
def breakTarget? (l : Links) (i : Nat) : Option (Nat × Nat) := l.breaks.lookup i

/-- The header of the loop that a continue goes on with. -/
def continueTarget? (l : Links) (i : Nat) : Option Nat := l.continues.lookup i

/-! ## Readings of the definitions -/

/-- `while … if … endwhile … endif`: families do not have to nest in each other. -/
example :
    let l := ofKinds [some .whileStart, some .ifStart, some .whileEnd, some .ifEnd]
    l.loopEnds = [(0, 2)] ∧ l.choiceEnds = [(1, 3)] := by decide

/-- A break in a loop without an end leaves nothing. -/
example : (ofKinds [some .forStart, some .breakLoop]).breaks = [] := by decide

end Links

end Cadence
