/-
  PROGRAMS and what they mean, told by their structure.

  A structured script is a block of commands, choices and loops, one inside the other (`Stmt`,
  `Block`, `Tail`).  Written down line by line it is a list of statements (`flatten`).

  What it MEANS is told by recursion on the structure, without links and without a look at the
  cursor or at the frames:

  1. Of a choice, the first branch whose guard holds is run, and no other.
  2. A loop asks its header, runs its body if there is another pass, and asks again.  A guarded loop
     asks its guard; a counted loop fixes its bound when it is entered and counts by itself; a loop
     over a list looks up the element whose turn it is.
  3. `break` and `continue` leave the body of the innermost loop, `stop` leaves everything.
  4. A command is asked again until it says that it is done.

  Handlers may look at the script that they are called from, so the meaning also keeps the line
  that is being run and the scopes that are open.  It writes them, but it never reads them.

  A script may run for ever.  A COURSE is therefore given a clock, the number of statements that it
  may still visit, and says how it was left and what is left of the clock.
-/
import Cadence.Proofs.Running.Chain
import Cadence.World.Tick

namespace Cadence

open ScriptM

/-! ## Programs -/

/-- A statement that begins with a token of the given kind. -/
structure Line (k : Kind) where
  /-- The statement. -/
  node : Node
  /-- Its first token. -/
  word : Node
  /-- Its other tokens. -/
  rest : List Node
  /-- It is a statement. -/
  statement : node.kind = .statement
  /-- Its tokens. -/
  children : node.children = word :: rest
  /-- The kind of the first token. -/
  kind : word.kind = k

/-- Does a statement that begins with such a token ask a command? -/
def Kind.asksCommand (k : Kind) : Bool :=
  k = .command || k = .quiet || k = .force || k = .negate

/-- The three sorts of loops. -/
inductive Loop where
  /-- As long as a guard holds. -/
  | guarded
  /-- A number of times. -/
  | counted
  /-- Once for each element of a list. -/
  | listed
deriving DecidableEq, Repr

/-- How a loop begins. -/
def Loop.start : Loop → Kind
  | .guarded => .whileStart
  | .counted => .forStart
  | .listed => .forEachStart

/-- How a loop ends. -/
def Loop.finish : Loop → Kind
  | .guarded => .whileEnd
  | .counted => .forEnd
  | .listed => .forEnd

mutual
/-- A part of a program. -/
inductive Stmt where
  /-- A command. -/
  | command {k : Kind} (asks : k.asksCommand = true) (line : Line k)
  /-- The end of the script. -/
  | stop (line : Line .stop)
  /-- Leaves the innermost loop. -/
  | breakLoop (line : Line .breakLoop)
  /-- Goes on with the next pass of the innermost loop. -/
  | continueLoop (line : Line .continueLoop)
  /-- A choice. -/
  | choice (start : Line .ifStart) (body : Block) (tail : Tail)
  /-- A loop. -/
  | loop (sort : Loop) (header : Line sort.start) (body : Block) (last : Line sort.finish)

/-- Parts of a program, one after the other. -/
inductive Block where
  /-- Nothing. -/
  | nil
  /-- A part, and then others. -/
  | cons (first : Stmt) (rest : Block)

/-- What follows the first branch of a choice. -/
inductive Tail where
  /-- The end of the choice. -/
  | close (line : Line .ifEnd)
  /-- A further branch with a guard. -/
  | elseIf (line : Line .elseIf) (body : Block) (rest : Tail)
  /-- The last branch, without a guard. -/
  | otherwise (line : Line .elseStart) (body : Block) (last : Line .ifEnd)
end

/-! ## Programs as lists of statements -/

mutual
/-- The statements of a part. -/
def Stmt.flatten : Stmt → List Node
  | .command _ l => [l.node]
  | .stop l => [l.node]
  | .breakLoop l => [l.node]
  | .continueLoop l => [l.node]
  | .choice l body tail => l.node :: (body.flatten ++ tail.flatten)
  | .loop _ l body last => l.node :: (body.flatten ++ [last.node])

/-- The statements of a block. -/
def Block.flatten : Block → List Node
  | .nil => []
  | .cons s rest => s.flatten ++ rest.flatten

/-- The statements of a tail. -/
def Tail.flatten : Tail → List Node
  | .close l => [l.node]
  | .elseIf l body rest => l.node :: (body.flatten ++ rest.flatten)
  | .otherwise l body last => l.node :: (body.flatten ++ [last.node])
end

/-- The number of statements of a part. -/
def Stmt.size (s : Stmt) : Nat := s.flatten.length

/-- The number of statements of a block. -/
def Block.size (b : Block) : Nat := b.flatten.length

/-- The number of statements of a tail. -/
def Tail.size (t : Tail) : Nat := t.flatten.length

/-- The end of a choice. -/
def Tail.last : Tail → Line .ifEnd
  | .close l => l
  | .elseIf _ _ rest => rest.last
  | .otherwise _ _ last => last

/-- The position of the end of a choice, when its tail begins at a position. -/
def Tail.endAt (p : Nat) : Tail → Nat
  | .close _ => p
  | .elseIf _ body rest => rest.endAt (p + 1 + body.size)
  | .otherwise _ body _ => p + 1 + body.size

/-- A line as the statement at a position of a tree. -/
def Line.at {k : Kind} (l : Line k) (T : Tree) (p : Nat) : Statement :=
  ⟨T.load, ⟨l.node, [(T.root, p)]⟩⟩

/-- The first token of a line, as the statement at a position of a tree. -/
def Line.head {k : Kind} (l : Line k) (T : Tree) (p : Nat) : Site :=
  ⟨l.word, [(l.node, 0), (T.root, p)]⟩

/-! ## Courses -/

/-- How a part of a program is left. -/
inductive Exit where
  /-- The clock has run out. -/
  | cut
  /-- The part is done. -/
  | next
  /-- The innermost loop is left. -/
  | breakLoop
  /-- The innermost loop goes on with its next pass. -/
  | continueLoop
  /-- The script has ended. -/
  | stop
deriving DecidableEq, Repr

/-- What a part of a program does within the time that a clock gives: how it is left, and what is
left of the clock. -/
abbrev Course (σ ι : Type) := Nat → ScriptM σ ι (Exit × Nat)

/-- The loop that a part of a program stands in. -/
structure Within where
  /-- The position of the header. -/
  header : Nat
  /-- The position of the end. -/
  last : Nat
  /-- The number of choices that are open inside the loop. -/
  inside : Nat := 0

/-- One more choice is open. -/
def Within.deeper (c : Within) : Within := { c with inside := c.inside + 1 }

/-- One more pass. -/
def Count.again (c : Count) : Count := { c with index := c.index + 1 }

section

variable {σ ι α : Type}

/-- Leaves at once. -/
def leave (e : Exit) : Course σ ι := fun n => return (e, n)

/-- Goes on with another course when the first is done. -/
def Course.andThen (x y : Course σ ι) : Course σ ι := fun n => do
  let (e, m) ← x n
  match e with
  | .next => y m
  | _ => return (e, m)

variable (host : Host σ ι) (i : Nat)

/-- Runs a statement with the events, the note in the log and the step rules around it. -/
def around (t : Statement) (x : ScriptM σ ι α) : ScriptM σ ι α := do
  modify fun w => { w with active := some i }
  emit host (.beforeStatement i t)
  let e ← logStep i t
  match ← attempt x with
  | .error fault =>
    let error := fault.ofStep t e.index
    emit host (.onError i error)
    throw (.script error)
  | .ok a =>
    afterStep host i t e
    return a

/-- Visits a statement and goes on as it says. -/
def visit (t : Statement) (x : ScriptM σ ι α) (k : α → Course σ ι) : Course σ ι
  | 0 => return (.cut, 0)
  | n + 1 => do
    let a ← around host i t x
    k a n

variable (T : Tree)

/-- The line of a position is the next to be run. -/
def goTo (p : Nat) : ScriptM σ ι Unit := moveTo i (T.statement? p)

/-- Closes frames. -/
def closeFrames (n : Nat) : ScriptM σ ι Unit :=
  modifyScript i fun s => { s with frames := s.frames.close n }

/-- The innermost frame belongs to this pass of a loop. -/
def setCount (c : Count) : ScriptM σ ι Unit :=
  modifyScript i (·.mapTop fun f => { f with loop := some c })

/-! ## Commands and loops -/

/-- A command is asked until it is done. -/
def obey {k : Kind} (l : Line k) (p : Nat) : Course σ ι
  | 0 => return (.cut, 0)
  | n + 1 => do
    let done ← around host i (l.at T p) do
      let done ← executeCommand host i (l.at T p).site.children
      if done then goTo i T (p + 1)
      return done
    if done then return (.next, n) else obey l p n

/-- A pass of a counted loop is to be run if its number is below the bound. -/
theorem Count.continues_iff {c : Count} :
    c.continues = true ↔ ∃ n, c.bound = some n ∧ (c.index : Int) < n := by
  unfold continues
  cases c.bound with
  | none => simp
  | some n => simp

/-- For a pass of a loop over a list the element of its number is looked up. -/
theorem listElement_of_some {w : World σ ι} {listName : String} {items : List Argument}
    (h : w.lists.get? listName = some items) (list : Site) (index : Nat) :
    listElement list listName index w = .ok items[index]? w := by
  have hvalue : w.listValue listName index = .ok items[index]? := by
    unfold World.listValue World.requireList
    rw [h]
    show Except.ok (if (index : Int) < 0 then none else items[(index : Int).toNat]?) = _
    rw [if_neg (by omega), Int.toNat_natCast]
  show mapFault _ (lift (w.listValue listName index)) w = _
  rw [hvalue]
  rfl

/-- A variable that is set is bound in the innermost frame, and nothing else is bound otherwise. -/
theorem Script.frames_setVar (s : Script ι) (name : String) (a : Argument) :
    (∀ x, (s.setVar name a).frames.top.vars.get? x =
      if name = x then some a else s.frames.top.vars.get? x) ∧
    (s.setVar name a).frames.outer = s.frames.outer :=
  ⟨fun x => Table.get?_insert s.frames.top.vars name x a, rfl⟩

/-- Is this pass of a counted loop still to be run? -/
def askCount (count : Count) : ScriptM σ ι (Option Count) := do
  setCount i count
  return if count.continues then some count else none

/-- Is there an element for this pass of a loop over a list? -/
def askElement (name : String) (list : Site) (listName : String) (count : Count) :
    ScriptM σ ι (Option Count) := do
  setCount i count
  match ← listElement list listName count.index with
  | some a =>
    modifyScript i (·.setVar name a)
    return some count
  | none =>
    modifyScript i (·.clearVar name)
    return none

/-- Is there another pass of a loop?  The passes before it, if any, have been counted. -/
def Loop.ask (t : Statement) (head : Site) : Loop → Option Count → ScriptM σ ι (Option Count)
  | .guarded, before => do
    match before with
    | none => pushFrame i t
    | some _ => pure ()
    if ← evaluateGuard host i head then return some {} else return none
  | .counted, before =>
    match head.firstChild? with
    | none => fail (some head) .badCount
    | some bound =>
      if bound.kind ≠ .integer then fail (some bound) .badCount
      else do
        let count : Count ← (do
          match before with
          | none => do
            pushFrame i t
            return { bound := some (← reading fun w => w.asUInt ⟨i, bound⟩) }
          | some c => return c.again)
        askCount i count
  | .listed, before =>
    match head.children.map fun c => (c, c.lexeme) with
    | (_, some name) :: (list, some listName) :: _ => do
      let count : Count ← (do
        match before with
        | none => do
          pushFrame i t
          return {}
        | some c => return c.again)
      askElement i name list listName count
    | _ => fail (some head) .badForEach

/-- Where the header of a loop leads: to the body, or behind the end. -/
def follow (p last : Nat) (pass : Option Count) : ScriptM σ ι (Option Count) := do
  match pass with
  | some _ => goTo i T (p + 1)
  | none => do
    modifyScript i Script.popFrame
    goTo i T (last + 1)
  return pass

/-- The header of a loop at a position, whose end is at another. -/
def Loop.header (sort : Loop) (l : Line sort.start) (p last : Nat) (before : Option Count) :
    ScriptM σ ι (Option Count) :=
  sort.ask host i (l.at T p) (l.head T p) before >>= follow i T p last

/-- The passes of a loop. -/
def rounds (t : Statement) (header : Option Count → ScriptM σ ι (Option Count))
    (body : Course σ ι) (before : Option Count) : Course σ ι
  | 0 => return (.cut, 0)
  | n + 1 => do
    match ← around host i t (header before) with
    | none => return (.next, n)
    | some pass =>
      let (e, m) ← body n
      match e with
      -- a body never puts its clock forward, so the smaller of the two is `m`
      | .next | .continueLoop => rounds t header body (some pass) (min m n)
      | .breakLoop => return (.next, m)
      | e => return (e, m)
termination_by n => n
decreasing_by all_goals omega

/-! ## The meaning -/

/-- Leaves a choice at its end. -/
def conclude (l : Line .ifEnd) (p : Nat) : Course σ ι :=
  visit host i (l.at T p)
    (do
      modifyScript i Script.popFrame
      goTo i T (p + 1))
    fun _ => leave .next

/-- What follows the branch that was run: any further branch is passed over, up to the end. -/
def Tail.course (p : Nat) : Tail → Course σ ι
  | .close l => conclude host i T l p
  | .elseIf l body rest =>
    visit host i (l.at T p) (goTo i T (rest.endAt (p + 1 + body.size)))
      fun _ => conclude host i T rest.last (rest.endAt (p + 1 + body.size))
  | .otherwise l body last =>
    visit host i (l.at T p) (goTo i T (p + 1 + body.size))
      fun _ => conclude host i T last (p + 1 + body.size)

mutual
/-- What a part of a program does at a position, inside a loop or not. -/
def Stmt.course (c : Option Within) (p : Nat) : Stmt → Course σ ι
  | .command _ l => obey host i T l p
  | .stop l => visit host i (l.at T p) (moveTo i none) fun _ => leave .stop
  | .breakLoop l =>
    match c with
    | none =>
      visit host i (l.at T p)
        (fail (some (l.head T p)) (.unexpected .breakLoop) : ScriptM σ ι Unit)
        fun _ => leave .breakLoop
    | some c =>
      visit host i (l.at T p)
        (do
          closeFrames i (c.inside + 1)
          goTo i T (c.last + 1))
        fun _ => leave .breakLoop
  | .continueLoop l =>
    match c with
    | none =>
      visit host i (l.at T p)
        (fail (some (l.head T p)) (.unexpected .continueLoop) : ScriptM σ ι Unit)
        fun _ => leave .continueLoop
    | some c =>
      visit host i (l.at T p)
        (do
          closeFrames i c.inside
          goTo i T c.header)
        fun _ => leave .continueLoop
  | .choice l body tail =>
    visit host i (l.at T p)
      (do
        pushFrame i (l.at T p)
        if ← evaluateGuard host i (l.head T p) then
          goTo i T (p + 1)
          return (body.course (c.map Within.deeper) (p + 1)).andThen
            (tail.course host i T (p + 1 + body.size))
        else tail.choose (c.map Within.deeper) (p + 1 + body.size))
      fun branch => branch
  | .loop sort l body last =>
    rounds host i (l.at T p) (sort.header host i T l p (p + 1 + body.size))
      ((body.course (some ⟨p, p + 1 + body.size, 0⟩) (p + 1)).andThen
        (visit host i (last.at T (p + 1 + body.size)) (goTo i T p) fun _ => leave .next))
      none

/-- What a block does. -/
def Block.course (c : Option Within) (p : Nat) : Block → Course σ ι
  | .nil => leave .next
  | .cons s rest => (s.course c p).andThen (rest.course c (p + s.size))

/-- Chooses the first further branch whose guard holds, or none; the answer is what to do then. -/
def Tail.choose (c : Option Within) (p : Nat) : Tail → ScriptM σ ι (Course σ ι)
  | .close l => do
    goTo i T p
    return conclude host i T l p
  | .elseIf l body rest => do
    if ← evaluateGuard host i (l.head T p) then
      goTo i T (p + 1)
      return (body.course c (p + 1)).andThen (rest.course host i T (p + 1 + body.size))
    else rest.choose c (p + 1 + body.size)
  | .otherwise _ body last => do
    goTo i T (p + 1)
    return (body.course c (p + 1)).andThen (conclude host i T last (p + 1 + body.size))
end

/-- What a whole program does within a number of ticks: does it go on after them? -/
def Block.execute (b : Block) (n : Nat) : ScriptM σ ι Bool := do
  let (e, _) ← b.course host i T none 0 n
  match e with
  | .cut => return true
  | _ => do
    finish host i
    return false

end

end Cadence
