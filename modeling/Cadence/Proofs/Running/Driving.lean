/-
  DRIVING — what the execution of a script's statements does to that script.

  A statement moves its own script and nothing else: it writes the cursor, it opens a frame, closes
  frames or counts in the innermost one, and it ends the waiting of the script.  A tolerant relation
  that allows these kinds of change of one script (`Walks`) is kept by every statement of that
  script, but for the header of a loop over a list: that is the one statement that binds variables.
  A relation that allows the frames to be written at will (`Steers`) is kept by it as well.  If it
  also allows the log to be written and the script to be the active one (`Conducts`), it is kept by
  a whole step with its events and rules around the statement; a lenient relation does (`Drives`).

  What is left to look at for a new relation is how a tick wakes a script up: the end of a rest, and
  the callback of a waiting statement.
-/
import Cadence.Proofs.Running.Indifference

namespace Cadence

open ScriptM

variable {σ ι : Type} {R : World σ ι → World σ ι → Prop}

theorem keeps_listElement (hL : Tolerant R) (list : Site) (listName : String) (index : Nat) :
    Keeps R (listElement list listName index : ScriptM σ ι (Option Argument)) :=
  .mapFault _ (.reading hL _)

theorem keeps_deadlineOf (hL : Tolerant R) (i : Nat) :
    Keeps R (deadlineOf i : ScriptM σ ι Float) := by
  unfold deadlineOf
  refine .bind hL (.script hL i) fun s => ?_
  split
  · exact .pure hL _
  · exact .throw hL _

/-- Without a count there is no pass to be counted. -/
theorem countPass_of_none {i : Nat} {w : World σ ι} (h : (w.script i).frames.top.loop = none) :
    countPass i w = .error (.trouble .missingFrame) w := by
  unfold countPass
  rw [script_bind, h]
  rfl

theorem countPass_of_some {i : Nat} {w : World σ ι} {c : Count}
    (h : (w.script i).frames.top.loop = some c) :
    countPass i w = .ok () (w.modifyScript i (·.mapTop fun f =>
      { f with loop := some { c with index := c.index + 1 } })) := by
  unfold countPass
  rw [script_bind, h]
  rfl

/-! ## Frames -/

/-- A change of frames that only closes some. -/
def Frames.Closes (f : Frames → Frames) : Prop := ∀ c, ∀ g ∈ (f c).toList, g ∈ c.toList

namespace Frames

theorem closes_pop : Closes pop := by
  rintro ⟨top, outer⟩ g hg
  cases outer with
  | nil => exact hg
  | cons f rest => exact List.mem_cons_of_mem top hg

theorem closes_bottom : Closes bottom := by
  rintro ⟨top, outer⟩ g hg
  obtain rfl := List.mem_singleton.mp hg
  cases outer with
  | nil => exact List.mem_cons_self
  | cons f rest =>
    refine List.mem_cons_of_mem top ?_
    show (f :: rest).getLastD top ∈ f :: rest
    rw [List.getLastD_cons]
    exact List.getLastD_mem_cons

/-- The frames from one of them on are some of them. -/
theorem mem_of_from? {t : Statement} {top : Frame} {outer : List Frame} {d : Frames}
    (h : from? t top outer = some d) : ∀ g ∈ d.toList, g ∈ top :: outer := by
  induction outer generalizing top with
  | nil =>
    unfold from? at h
    split at h
    · cases h
      exact fun _ => id
    · cases h
  | cons f rest ih =>
    unfold from? at h
    split at h
    · cases h
      exact fun _ => id
    · exact fun g hg => List.mem_cons_of_mem top (ih h g hg)

theorem closes_unwind (t : Statement) (inclusive : Bool) :
    Closes fun c => c.unwind t inclusive := by
  intro c g hg
  simp only [unwind] at hg
  split at hg
  · exact hg
  · next d hd =>
    split at hg
    · exact mem_of_from? hd g (closes_pop d g hg)
    · exact mem_of_from? hd g hg

/-! ### What holds of all frames -/

theorem forall_push {p : Frame → Prop} {c : Frames} (h : ∀ g ∈ c.toList, p g) {t : Statement}
    (ht : p { start := some t }) : ∀ g ∈ (c.push t).toList, p g := by
  intro g hg
  rcases List.mem_cons.mp hg with rfl | hg
  · exact ht
  · exact h g hg

theorem forall_mapTop {p : Frame → Prop} {c : Frames} (h : ∀ g ∈ c.toList, p g) {f : Frame → Frame}
    (hf : p c.top → p (f c.top)) : ∀ g ∈ (c.mapTop f).toList, p g := by
  intro g hg
  rcases List.mem_cons.mp hg with rfl | hg
  · exact hf (h c.top List.mem_cons_self)
  · exact h g (List.mem_cons_of_mem _ hg)

end Frames

/-! ## What a script may be moved by -/

/-- A relation that allows one script to be moved, its variables aside. -/
structure Walks (R : World σ ι → World σ ι → Prop) (i : Nat) : Prop extends Tolerant R where
  /-- The cursor may change. -/
  turn : ∀ w (cursor : Script ι → Option Statement),
    R w (w.modifyScript i fun s => { s with cursor := cursor s })
  /-- A frame may be opened. -/
  open_ : ∀ w t, R w (w.modifyScript i (·.pushFrame t))
  /-- Frames may be closed. -/
  close : ∀ w f, Frames.Closes f → R w (w.modifyScript i fun s => { s with frames := f s.frames })
  /-- The innermost frame may count. -/
  count : ∀ w loop, R w (w.modifyScript i (·.mapTop fun f => { f with loop }))
  /-- A wait may end. -/
  settle : ∀ w, R w (w.modifyScript i Script.clearTimeout)

/-- A relation that allows one script to be moved. -/
structure Steers (R : World σ ι → World σ ι → Prop) (i : Nat) : Prop extends Tolerant R where
  /-- The cursor and the frames may change. -/
  place : ∀ w (cursor : Script ι → Option Statement) (frames : Script ι → Frames),
    R w (w.modifyScript i fun s => { s with cursor := cursor s, frames := frames s })
  /-- A wait may end. -/
  settle : ∀ w, R w (w.modifyScript i Script.clearTimeout)

/-- And it allows what stands around a statement: a note in the log, and the script to be active and
then to be finished. -/
structure Conducts (R : World σ ι → World σ ι → Prop) (i : Nat) : Prop extends Steers R i where
  /-- The log may be written. -/
  logged : ∀ w log, R w { w with log }
  /-- The script may become the active one. -/
  begun : ∀ w, R w { w with active := some i }
  /-- No script may be active any more. -/
  finished : ∀ w, R w { w with active := none }

/-- A lenient relation that allows one script to be moved. -/
structure Drives (R : World σ ι → World σ ι → Prop) (i : Nat) : Prop
    extends Lenient R, Steers R i

theorem Drives.conducts {i : Nat} (hR : Drives R i) : Conducts R i where
  toSteers := hR.toSteers
  logged := hR.logged
  begun := hR.activated (some i)
  finished := hR.activated none

instance {i : Nat} : Coe (Drives R i) (Conducts R i) := ⟨Drives.conducts⟩

section

variable {host : Host σ ι} {i : Nat}

theorem Steers.walks (hR : Steers R i) : Walks R i where
  toTolerant := hR.toTolerant
  turn w cursor := hR.place w cursor Script.frames
  open_ w t := hR.place w Script.cursor fun s => s.frames.push t
  close w f _ := hR.place w Script.cursor fun s => f s.frames
  count w _ := hR.place w Script.cursor fun s => s.frames.mapTop _
  settle := hR.settle

namespace Walks

variable (hR : Walks R i)
include hR

theorem pushFrame (t : Statement) : Keeps R (pushFrame i t : ScriptM σ ι Unit) :=
  .modify fun w => hR.open_ w t

theorem popFrame : Keeps R (modifyScript i Script.popFrame : ScriptM σ ι Unit) :=
  .modify fun w => hR.close w Frames.pop Frames.closes_pop

theorem unwind (t : Statement) (inclusive : Bool) :
    Keeps R (modifyScript i fun s => { s with frames := s.frames.unwind t inclusive } :
      ScriptM σ ι Unit) :=
  .modify fun w => hR.close w (·.unwind t inclusive) (Frames.closes_unwind t inclusive)

theorem moveTo (t : Option Statement) : Keeps R (moveTo i t : ScriptM σ ι Unit) :=
  .modify fun w => hR.turn w fun _ => t

theorem clearTimeout : Keeps R (modifyScript i Script.clearTimeout : ScriptM σ ι Unit) :=
  .modify hR.settle

theorem advance : Keeps R (advance i : ScriptM σ ι Unit) := by
  refine .modify fun w => ?_
  have h := hR.turn (w.modifyScript i Script.clearTimeout) fun s => s.cursor.bind Statement.next?
  rw [World.modifyScript_modifyScript] at h
  exact hR.trans (hR.settle w) h

theorem standsIn (t : Statement) : Keeps R (standsIn i t : ScriptM σ ι Bool) :=
  .bind hR.toTolerant (.script hR.toTolerant i) fun _ => .pure hR.toTolerant _

/-! ## Choices -/

theorem enterBranch (hh : host.Serves R) (fallback : Statement) (branches : List Statement) :
    Keeps R (enterBranch host i fallback branches) := by
  induction branches with
  | nil => exact hR.moveTo _
  | cons branch rest ih =>
    unfold Cadence.enterBranch
    split
    · exact ih
    · refine .ite (hR.moveTo _) ?_
      refine .bind hR.toTolerant (keeps_evaluateGuard hR.toTolerant i hh _) fun b => ?_
      exact .ite (hR.moveTo _) ih

theorem executeIf (hh : host.Serves R) (t : Statement) (head : Site) :
    Keeps R (executeIf host i t head) := by
  have hL := hR.toTolerant
  unfold Cadence.executeIf
  refine .bind hL (hR.pushFrame t) fun _ => ?_
  refine .bind hL (keeps_evaluateGuard hL i hh head) fun b => .ite hR.advance ?_
  refine .bind hL (.script hL i) fun s => ?_
  split
  · exact .fail hL _ _
  · exact .bind hL hR.clearTimeout fun _ => hR.enterBranch hh _ _

theorem skipBranch (t : Statement) (head : Site) :
    Keeps R (skipBranch i t head : ScriptM σ ι Unit) := by
  have hL := hR.toTolerant
  unfold Cadence.skipBranch
  refine .bind hL (.script hL i) fun s => ?_
  split
  · exact .fail hL _ _
  · exact .bind hL hR.clearTimeout fun _ => hR.moveTo _

/-! ## Loops -/

theorem exitLoop (t : Statement) (head : Site) :
    Keeps R (exitLoop i t head : ScriptM σ ι Unit) := by
  have hL := hR.toTolerant
  unfold Cadence.exitLoop
  refine .bind hL (.script hL i) fun s => ?_
  split
  · exact .fail hL _ _
  · exact .bind hL hR.popFrame fun _ => .bind hL (hR.moveTo _) fun _ => hR.advance

theorem executeWhile (hh : host.Serves R) (t : Statement) (head : Site) :
    Keeps R (executeWhile host i t head) := by
  have hL := hR.toTolerant
  have ask : Keeps R (do
      if ← evaluateGuard host i head then Cadence.advance i else Cadence.exitLoop i t head) :=
    .bind hL (keeps_evaluateGuard hL i hh head) fun b => .ite hR.advance (hR.exitLoop t head)
  unfold Cadence.executeWhile
  refine .bind hL (hR.standsIn t) fun b => .ite ?_ ask
  exact .bind hL (hR.pushFrame t) fun _ => ask

theorem countPass : Keeps R (countPass i : ScriptM σ ι Unit) := by
  have hL := hR.toTolerant
  unfold Cadence.countPass
  refine .bind hL (.script hL i) fun s => ?_
  split
  · exact .throw hL _
  · exact .modify fun w => hR.count w _

theorem startCount (bound : Option Int) : Keeps R (startCount i bound : ScriptM σ ι Unit) :=
  .modify fun w => hR.count w _

theorem followCount (t : Statement) (head : Site) :
    Keeps R (followCount i t head : ScriptM σ ι Unit) := by
  have hL := hR.toTolerant
  unfold Cadence.followCount
  refine .bind hL (.script hL i) fun s => ?_
  split
  · exact hR.exitLoop t head
  · exact .ite hR.advance (hR.exitLoop t head)

theorem executeFor (t : Statement) (head : Site) :
    Keeps R (executeFor i t head : ScriptM σ ι Unit) := by
  have hL := hR.toTolerant
  unfold Cadence.executeFor
  split
  · exact .fail hL _ _
  · refine .ite (.fail hL _ _) (.bind hL (hR.standsIn t) fun b => .ite ?_ ?_)
    · refine .bind hL (hR.pushFrame t) fun _ => .bind hL (.reading hL _) fun n => ?_
      exact .bind hL (hR.startCount _) fun _ => hR.followCount t head
    · exact .bind hL hR.countPass fun _ => hR.followCount t head

theorem executeLoopEnd (t : Statement) (head : Site) :
    Keeps R (executeLoopEnd i t head : ScriptM σ ι Unit) := by
  have hL := hR.toTolerant
  unfold Cadence.executeLoopEnd
  refine .bind hL (.script hL i) fun s => ?_
  split
  · exact .fail hL _ _
  · exact hR.moveTo _

theorem executeBreak (t : Statement) (head : Site) :
    Keeps R (executeBreak i t head : ScriptM σ ι Unit) := by
  have hL := hR.toTolerant
  unfold Cadence.executeBreak
  refine .bind hL (.script hL i) fun s => ?_
  split
  · rename_i header fallback _ _
    refine .bind hL (hR.unwind header true) fun _ => ?_
    exact .bind hL (hR.moveTo _) fun _ => hR.advance
  · exact .fail hL _ _

theorem executeContinue (t : Statement) (head : Site) :
    Keeps R (executeContinue i t head : ScriptM σ ι Unit) := by
  have hL := hR.toTolerant
  unfold Cadence.executeContinue
  refine .bind hL (.script hL i) fun s => ?_
  split
  · exact .fail hL _ _
  · rename_i header _
    exact .bind hL (hR.unwind header false) fun _ => hR.moveTo _

/-! ## The rest -/

theorem executeReplay (t : Statement) : Keeps R (executeReplay i t : ScriptM σ ι Unit) := by
  refine .modify fun w => ?_
  have h := hR.turn (w.modifyScript i fun s => { s with frames := s.frames.bottom })
    fun _ => (t.site.parent?.bind Site.firstChild?).map fun site => { t with site }
  rw [World.modifyScript_modifyScript] at h
  exact hR.trans (hR.close w Frames.bottom Frames.closes_bottom) h

/-- **A statement keeps a relation that allows its script to be moved**, if its command does, and its
variables if it is a loop over a list. -/
theorem executeHead (hh : host.Serves R) {t : Statement} {head : Site}
    (hcommand : head.kind = .command ∨ head.kind = .quiet ∨ head.kind = .force ∨
      head.kind = .negate → Keeps R (executeCommand host i t.site.children))
    (hforEach : head.kind = .forEachStart → Keeps R (executeForEach i t head)) :
    Keeps R (executeHead host i t head) := by
  have hL := hR.toTolerant
  have command : head.kind = .command ∨ head.kind = .quiet ∨ head.kind = .force ∨
      head.kind = .negate →
      Keeps R (do if ← executeCommand host i t.site.children then Cadence.advance i) :=
    fun h => .bind hL (hcommand h) fun b => .ite hR.advance (.pure hL _)
  unfold Cadence.executeHead
  split
  case h_1 => exact hR.executeIf hh t head
  case h_2 => exact hR.skipBranch t head
  case h_3 => exact hR.skipBranch t head
  case h_4 => exact .bind hL hR.popFrame fun _ => hR.advance
  case h_5 => exact hR.executeWhile hh t head
  case h_6 => exact hR.executeFor t head
  case h_7 h => exact hforEach h
  case h_8 => exact hR.executeLoopEnd t head
  case h_9 => exact hR.executeLoopEnd t head
  case h_10 => exact hR.executeBreak t head
  case h_11 => exact hR.executeContinue t head
  case h_12 => exact hR.moveTo none
  case h_13 => exact hR.executeReplay t
  case h_14 h => exact command (.inl h)
  case h_15 h => exact command (.inr (.inl h))
  case h_16 h => exact command (.inr (.inr (.inl h)))
  case h_17 h => exact command (.inr (.inr (.inr h)))
  case h_18 => exact .fail hL _ _

theorem executeStatement (hh : host.Serves R) {t : Statement}
    (hcommand : ∀ head, t.head? = some head → head.kind = .command ∨ head.kind = .quiet ∨
      head.kind = .force ∨ head.kind = .negate →
      Keeps R (executeCommand host i t.site.children))
    (hforEach : ∀ head, t.head? = some head → head.kind = .forEachStart →
      Keeps R (executeForEach i t head)) : Keeps R (executeStatement host i t) := by
  have hL := hR.toTolerant
  unfold Cadence.executeStatement
  refine .ite (.fail hL _ _) ?_
  split
  · exact .fail hL _ _
  · rename_i head hhead
    exact hR.executeHead hh (hcommand head hhead) (hforEach head hhead)

theorem executeNext (hh : host.Serves R) (hb : Bundled.Keeps R)
    (hc : ∀ t word args quiet force, Keeps R (host.command t word args quiet force))
    (hforEach : ∀ t head, t.head? = some head → head.kind = .forEachStart →
      Keeps R (executeForEach i t head)) : Keeps R (executeNext host i) := by
  have hL := hR.toTolerant
  unfold Cadence.executeNext
  refine .bind hL (.script hL i) fun s => ?_
  split
  · exact .pure hL _
  · refine .bind hL ?_ fun _ => .bind hL (.script hL i) fun s => .pure hL _
    exact hR.executeStatement hh (fun _ _ _ => keeps_executeCommand hL hh hb hc i _) (hforEach _)

end Walks

/-! ## Loops over lists -/

namespace Steers

variable (hR : Steers R i)
include hR

theorem mapTop (f : Frame → Frame) : Keeps R (modifyScript i (·.mapTop f) : ScriptM σ ι Unit) :=
  .modify fun w => hR.place w Script.cursor fun s => s.frames.mapTop f

theorem followElement (t : Statement) (head : Site) (name : String) (list : Site)
    (listName : String) :
    Keeps R (followElement i t head name list listName : ScriptM σ ι Unit) := by
  have hL := hR.toTolerant
  unfold Cadence.followElement
  refine .bind hL (.script hL i) fun s => .bind hL (keeps_listElement hL list listName _) ?_
  intro value
  split
  · exact .bind hL (hR.mapTop _) fun _ => hR.walks.advance
  · exact .bind hL (hR.mapTop _) fun _ => hR.walks.exitLoop t head

theorem executeForEach (t : Statement) (head : Site) :
    Keeps R (executeForEach i t head : ScriptM σ ι Unit) := by
  have hL := hR.toTolerant
  unfold Cadence.executeForEach
  split
  · rename_i name list listName _ _
    have go := hR.followElement (i := i) t head name list listName
    refine .bind hL (hR.walks.standsIn t) fun b => .ite ?_ ?_
    · exact .bind hL (hR.walks.pushFrame t) fun _ => .bind hL (hR.walks.startCount none) fun _ => go
    · exact .bind hL hR.walks.countPass fun _ => go
  · exact .fail hL _ _

/-- **A statement keeps a relation that allows its script to be moved**, if its command does. -/
theorem executeHead (hh : host.Serves R) {t : Statement} {head : Site}
    (hcommand : head.kind = .command ∨ head.kind = .quiet ∨ head.kind = .force ∨
      head.kind = .negate → Keeps R (executeCommand host i t.site.children)) :
    Keeps R (executeHead host i t head) :=
  hR.walks.executeHead hh hcommand fun _ => hR.executeForEach t head

theorem executeStatement (hh : host.Serves R) {t : Statement}
    (hcommand : ∀ head, t.head? = some head → head.kind = .command ∨ head.kind = .quiet ∨
      head.kind = .force ∨ head.kind = .negate →
      Keeps R (executeCommand host i t.site.children)) : Keeps R (executeStatement host i t) :=
  hR.walks.executeStatement hh hcommand fun head _ _ => hR.executeForEach t head

end Steers

section

variable (hR : Steers R i) (hh : host.Serves R) (hb : Bundled.Keeps R)
  (hc : ∀ t word args quiet force, Keeps R (host.command t word args quiet force))
include hR hh hb hc

theorem keeps_executeNext : Keeps R (executeNext host i) :=
  hR.walks.executeNext hh hb hc fun t head _ _ => hR.executeForEach t head

end

section

variable (hL : Tolerant R) (hlogged : ∀ t, Keeps R (logStep i t : ScriptM σ ι LogEntry))
  (hfinished : ∀ w, R w { w with active := none }) (hh : host.Keeps R)
  (hnext : Keeps R (executeNext host i))
include hL hlogged hfinished hh hnext

/-- What stands around a statement keeps a relation that the statement keeps. -/
theorem keeps_stepStatement_of_next (t : Statement) : Keeps R (stepStatement host i t) := by
  unfold stepStatement
  refine .bind hL (keeps_emit hL hh _) fun _ => .bind hL (hlogged t) fun e => ?_
  refine .bind hL (.attempt hnext) fun r => ?_
  split
  · exact .bind hL (keeps_emit hL hh _) fun _ => .throw hL _
  · refine .bind hL (keeps_afterStep hL hh i t e) fun _ => .ite ?_ ?_
    · exact .bind hL (keeps_finish hL hfinished hh i) fun _ => .pure hL _
    · exact .pure hL _

/-- So does a step, with or without a statement. -/
theorem keeps_step_of_next : Keeps R (step host i) := by
  unfold step
  refine .bind hL (.script hL i) fun s => ?_
  split
  · exact keeps_stepStatement_of_next hL hlogged hfinished hh hnext _
  · exact .bind hL (keeps_finish hL hfinished hh i) fun _ => .pure hL _

end

variable (hR : Conducts R i) (hh : host.Keeps R) (hb : Bundled.Keeps R)
  (hc : ∀ t word args quiet force, Keeps R (host.command t word args quiet force))
include hR hh hb hc

/-- **A step of a script keeps a relation that allows the script to be moved.** -/
theorem keeps_step : Keeps R (step host i) :=
  keeps_step_of_next hR.toTolerant (keeps_logStep hR.logged i) hR.finished hh
    (keeps_executeNext hR.toSteers hh hb hc)

/-- A tick keeps a relation that also allows the script to wake up. -/
theorem keeps_tick (hu : ∀ w, R w (w.modifyScript i Script.unpause))
    (he : Keeps R (expire host i)) : Keeps R (tick host i) := by
  have hL := hR.toTolerant
  have go := keeps_step hR hh hb hc
  unfold tick
  refine .bind hL (.modify hR.begun) fun _ => ?_
  refine .bind hL (.script hL i) fun s => ?_
  split
  · exact go
  · refine .bind hL (.get hL) fun w => .bind hL (keeps_deadlineOf hL i) fun d => ?_
    exact .ite (.pure hL _) (.bind hL (.modify hu) fun _ => go)
  · exact .bind hL (keeps_deadlineOf hL i) fun d => .bind hL (.get hL) fun w => .ite he go

end

end Cadence
