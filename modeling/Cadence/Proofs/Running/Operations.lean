/-
  OPERATIONS — what a host may ask of scripts, and the worlds that this leads to.

  What a host does is left open as far as possible: whatever leads from a world to a world by
  OPERATIONS on suspensions and cursors, one after the other, with any change in between that writes
  no suspension (`Acts`).  Such a composition may depend on everything in the world.

  The host keeps books (`Ledger`): it notes each arming of a callback, and each asking before
  anything else is done for it (`Bookkeeping`).  What ticks and operations lead to, from fresh
  scripts, is `Reachable`.
-/
import Cadence.Proofs.Running.Driving

namespace Cadence

open ScriptM

/-- A script with its callback used up. -/
def Script.consume {ι : Type} (s : Script ι) : Script ι := { s with callback := none }

/-! ## Operations and their compositions -/

/-- What a host keeps that notes each arming and each asking of a callback. -/
structure Ledger (σ ι : Type) where
  /-- Whatever else it keeps. -/
  own : σ
  /-- The callbacks that were armed, last first. -/
  armed : List ι := []
  /-- The callbacks that were asked, last first. -/
  asked : List ι := []

/-- What may be asked of a script, by its number or as the active one. -/
inductive Operation (ι : Type) where
  | pause (i : Nat) (d : Duration)
  | unpause (i : Nat)
  | timeout (i : Nat) (d : Duration) (callback : Option (Callback ι))
  | clearTimeout (i : Nat)
  | advance (i : Nat)
  | goto (i : Nat) (line : Int)
  | comeBack (i : Nat)
  | reset (i : Nat)
  | replace (i : Nat) (root : Node)
  | pauseActive (d : Duration)
  | unpauseActive
  | timeoutActive (d : Duration) (callback : Option (Callback ι))
  | clearTimeoutActive
  | gotoActive (line : Int)
  | comeBackActive
  | resetActive
  | stopActive
  | create (name : String) (root : Node)

section

variable {σ ι : Type}

namespace World

/-- Notes that a callback was armed. -/
def noteArmed (t : ι) (w : World (Ledger σ ι) ι) : World (Ledger σ ι) ι :=
  { w with host := { w.host with armed := t :: w.host.armed } }

/-- Notes that a callback is asked. -/
def noteAsked (t : ι) (w : World (Ledger σ ι) ι) : World (Ledger σ ι) ι :=
  { w with host := { w.host with asked := t :: w.host.asked } }

/-- Notes an arming if a script began to wait. -/
def noteArming (before after : Script ι) (callback : Option (Callback ι))
    (w : World (Ledger σ ι) ι) : World (Ledger σ ι) ι :=
  match callback with
  | some (.host t) =>
    if before.activity = .running ∧ after.activity = .timingOut then w.noteArmed t else w
  | _ => w

end World

/-- Runs what may arm a callback on a script, and notes it if it did. -/
def arming (i : Nat) (callback : Option (Callback ι)) (x : ScriptM (Ledger σ ι) ι Unit) :
    ScriptM (Ledger σ ι) ι Unit := do
  let before ← script i
  x
  modify fun w => w.noteArming before (w.script i) callback

/-- Carries out an operation. -/
def Operation.perform : Operation ι → ScriptM (Ledger σ ι) ι Unit
  | .pause i d => pauseScript i d
  | .unpause i => modifyScript i Script.unpause
  | .timeout i d callback => arming i callback (timeoutScript i d callback)
  | .clearTimeout i => modifyScript i Script.clearTimeout
  | .advance i => modifyScript i Script.advance
  | .goto i line => do let _ ← gotoScript i line
  | .comeBack i => modifyScript i Script.returnFromGoto
  | .reset i => modifyScript i Script.reset
  | .replace i root => modifyScript i (·.replace root)
  | .pauseActive d => ScriptM.pause d
  | .unpauseActive => ScriptM.unpause
  | .timeoutActive d callback => do
    arming (← requireActive "timeout") callback (ScriptM.timeout d callback)
  | .clearTimeoutActive => ScriptM.clearTimeout
  | .gotoActive line => do let _ ← gotoLine line
  | .comeBackActive => modify fun w => w.modifyActive Script.returnFromGoto
  | .resetActive => modify World.resetActive
  | .stopActive => modify World.stopActive
  | .create name root => modify fun w => { w with scripts := w.scripts.push (.start name root) }

/-- A change that writes no suspension and nothing in the books: of the clock, of the stores, of
the registry, of what the host keeps besides, of which script is active, of cursors and frames. -/
structure Aside (w w' : World (Ledger σ ι) ι) : Prop where
  /-- The notes of the armings are the same. -/
  armed : w'.host.armed = w.host.armed
  /-- The notes of the askings are the same. -/
  asked : w'.host.asked = w.host.asked
  /-- There are as many scripts. -/
  size : w'.scripts.size = w.scripts.size
  /-- No script is suspended differently. -/
  activity : ∀ i, (w'.script i).activity = (w.script i).activity
  /-- No script has another deadline. -/
  deadline : ∀ i, (w'.script i).deadline = (w.script i).deadline
  /-- No script has another callback. -/
  callback : ∀ i, (w'.script i).callback = (w.script i).callback

/-- Where nothing moves, nothing is suspended. -/
theorem Idle.aside {w w' : World (Ledger σ ι) ι} (h : Idle w w') : Aside w w' where
  armed := by rw [h.host]
  asked := by rw [h.host]
  size := h.size
  activity i := h.same Script.activity (fun _ => rfl) i
  deadline i := h.same Script.deadline (fun _ => rfl) i
  callback i := h.same Script.callback (fun _ => rfl) i

/-- The worlds that compositions of operations lead to. -/
inductive Acts (u : World (Ledger σ ι) ι) : World (Ledger σ ι) ι → Prop where
  | refl : Acts u u
  | operation {v} (o : Operation ι) : Acts u v → Acts u (o.perform.after v)
  | aside {v w} : Acts u v → Aside v w → Acts u w

/-- A host that does nothing but compositions of operations, and notes what it does: that a callback
is asked before anything else is done there. -/
structure Bookkeeping (host : Host (Ledger σ ι) ι) : Prop where
  /-- What it does around the statements are compositions. -/
  around : host.Keeps Acts
  /-- What it does for commands are compositions. -/
  command : ∀ t word args quiet force, Keeps Acts (host.command t word args quiet force)
  /-- What it does when a callback is asked are compositions, after the note. -/
  callback : ∀ t w, Acts (w.noteAsked t) ((host.callback t).after w)

/-- The worlds that ticks and operations lead to, from fresh scripts; among them those in which a
callback has just been taken out of its script and is being asked. -/
inductive Reachable (host : Host (Ledger σ ι) ι) : World (Ledger σ ι) ι → Prop where
  | fresh (w) : (∀ s ∈ w.scripts, ∃ name root, s = .start name root) →
      w.host.armed = [] → w.host.asked = [] → Reachable host w
  | tick {w} (i : Nat) : Reachable host w → Reachable host ((tick host i).after w)
  | acts {w w'} : Reachable host w → Acts w w' → Reachable host w'
  | asking {w} (i : Nat) (t : ι) (d : Float) : Reachable host w →
      (w.script i).activity = .timingOut → (w.script i).deadline = some d → d ≤ w.now →
      (w.script i).callback = some (.host t) →
      Reachable host (({ w with active := some i }.modifyScript i Script.consume).noteAsked t)

end

end Cadence
