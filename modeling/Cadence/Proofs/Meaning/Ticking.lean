/-
  TICKING — what a tick does to a script that nobody else moves.

  1. **Steady** — handlers may change the stores, the log and whatever else is the host's, but they
     leave the script where it is (`Steady`): no other tree, no other cursor, the same frames, and
     no suspension.  Four bundled commands do move or suspend the active script; a tree is TAME when
     none of its statements asks one of them (`Tame`).

  2. **Ready** — a script is ready at a statement when it runs, with given frames (`Ready`).

  3. **A tick of a ready script** is its statement with everything around it (`onward_succ`); after
     it, the script goes on if its cursor is on a statement (`onward`).
-/
import Cadence.Proofs.Meaning.Layout
import Cadence.Proofs.Running.Trip

namespace Cadence

open ScriptM

section

variable {σ ι α β : Type}

/-! ## Keeping a script steady -/

/-- The word of the command that a statement asks, if it asks one. -/
def Statement.word? (t : Statement) : Option String :=
  (keyword? (takeMarks {} t.site.children).2).map fun k => k.2.1

/-- No statement of the tree asks a bundled command that moves or suspends the active script. -/
def Tame (T : Tree) (w : World σ ι) : Prop :=
  ∀ p t word c, T.statement? p = some t → t.word? = some word →
    w.registry.commands.get? word = some (.bundled c) → c.moves = false

/-- A script is left where it is. -/
structure Steady (T : Tree) (i : Nat) (w w' : World σ ι) : Prop extends SamePlace i w w' where
  /-- Its frames are the same. -/
  frames : (w'.script i).frames = (w.script i).frames
  /-- It runs, or is suspended, as before. -/
  activity : (w'.script i).activity = (w.script i).activity
  /-- The words of the tree are not given away to commands that move. -/
  tame : Tame T w → Tame T w'

theorem steady_of_idle (T : Tree) (i : Nat) {w w' : World σ ι} (h : Idle w w') :
    Steady T i w w' where
  toSamePlace := (still_of_idle h).toSamePlace
  frames := h.same Script.frames (fun _ => rfl) i
  activity := h.same Script.activity (fun _ => rfl) i
  tame ht p t word c := by
    rw [h.registry]
    exact ht p t word c

theorem steady_lenient (T : Tree) (i : Nat) : Lenient (Steady (σ := σ) (ι := ι) T i) where
  trans h h' :=
    ⟨(samePlace_lenient i).trans h.toSamePlace h'.toSamePlace, h'.frames.trans h.frames,
      h'.activity.trans h.activity, fun ht => h'.tame (h.tame ht)⟩
  idle := steady_of_idle T i

/-- Whatever the host does, its commands included, leaves a script where it is. -/
structure Host.Discreet (T : Tree) (i : Nat) (host : Host σ ι) : Prop
    extends host.Keeps (Steady T i) where
  /-- Its commands do. -/
  command : ∀ t word args quiet force,
    Cadence.Keeps (Steady T i) (host.command t word args quiet force)

variable {host : Host σ ι} {i : Nat} {T : Tree}

/-- A command of a tame tree keeps what the host's commands keep. -/
theorem steady_executeCommand (hh : host.Discreet T i) {p : Nat} {t : Statement}
    (ht : T.statement? p = some t) {w : World σ ι} (hw : Tame T w) :
    Steady T i w ((executeCommand host i t.site.children).after w) := by
  refine after_executeCommand (steady_lenient T i).toTolerant hh.toKeeps hh.command
    fun site word rest args c hk hg _ => Bundled.keepsFor_of_not_moves ?_
  -- the word of a tame tree is none of the moving ones
  refine hw p t word c ht ?_ hg
  rw [Statement.word?, hk]
  rfl

/-! ## Ready scripts -/

/-- A script runs, with the given frames and the given cursor. -/
structure Ready (T : Tree) (i : Nat) (F : Frames) (c : Option Statement) (w : World σ ι) :
    Prop where
  /-- The script is there. -/
  size : i < w.scripts.size
  /-- The tree is loaded. -/
  root : (w.script i).root = T.root
  /-- It is this loading of the tree. -/
  load : (w.script i).load = T.load
  /-- The links are those of the tree. -/
  links : (w.script i).links = Links.ofKinds T.kinds
  /-- The cursor. -/
  cursor : (w.script i).cursor = c
  /-- The frames. -/
  frames : (w.script i).frames = F
  /-- The script runs. -/
  activity : (w.script i).activity = .running
  /-- Its statements move nothing behind its back. -/
  tame : Tame T w

namespace Ready

variable {F : Frames} {c : Option Statement} {w w' : World σ ι}

theorem steady (h : Ready T i F c w) (hs : Steady T i w w') : Ready T i F c w' :=
  ⟨hs.size h.size, hs.root.trans h.root, hs.load.trans h.load, hs.links.trans h.links,
    hs.cursor.trans h.cursor, hs.frames.trans h.frames, hs.activity.trans h.activity,
    hs.tame h.tame⟩

theorem idle (h : Ready T i F c w) (hs : Idle w w') : Ready T i F c w' :=
  h.steady (steady_of_idle T i hs)

/-- What a change of the cursor and the frames makes ready. -/
theorem modify (h : Ready T i F c w) {f : Script ι → Script ι} {G : Frames} {d : Option Statement}
    (hf : f (w.script i) = { w.script i with cursor := d, frames := G }) :
    Ready T i G d (w.modifyScript i f) := by
  have hs := World.script_modifyScript_self f h.size
  rw [hf] at hs
  constructor
  · rw [World.size_modifyScript]
    exact h.size
  · rw [hs]
    exact h.root
  · rw [hs]
    exact h.load
  · rw [hs]
    exact h.links
  · rw [hs]
  · rw [hs]
  · rw [hs]
    exact h.activity
  · exact h.tame

theorem clearTimeout (h : Ready T i F c w) : (w.script i).clearTimeout = w.script i := by
  unfold Script.clearTimeout
  rw [h.activity, if_neg (by decide)]

/-- Nothing is waited for, so going on is a move of the cursor. -/
theorem advance (h : Ready T i F c w) :
    (w.script i).advance = { w.script i with cursor := c.bind Statement.next? } := by
  show { (w.script i).clearTimeout with
    cursor := (w.script i).clearTimeout.cursor.bind Statement.next? } = _
  rw [h.clearTimeout, h.cursor]

theorem isRunning (h : Ready T i F c w) : (w.script i).isRunning = c.isSome := by
  rw [Script.isRunning, h.cursor]

end Ready

/-! ## Sequences, at one world -/

/-- Two sequences with the same beginning are the same when they are where the beginning leads. -/
theorem bind_congr_ok {x : ScriptM σ ι α} {f g : α → ScriptM σ ι β} {w : World σ ι}
    (h : ∀ a u, x w = .ok a u → f a u = g a u) : (x >>= f) w = (x >>= g) w := by
  rw [bind_apply, bind_apply]
  cases hx : x w with
  | ok a u => exact h a u hx
  | error fault u => rfl

/-- Two changes of a script are the same where they do the same to it. -/
theorem modifyScript_congr {f g : Script ι → Script ι} {w : World σ ι} (hi : i < w.scripts.size)
    (h : f (w.script i) = g (w.script i)) : w.modifyScript i f = w.modifyScript i g := by
  have hs : w.scripts.modify i f = w.scripts.modify i g := by
    apply Array.ext
    · simp
    · intro j h₁ h₂
      rw [Array.getElem_modify, Array.getElem_modify]
      split
      · rename_i hij
        subst hij
        have hw : w.script i = w.scripts[i] := by
          simp [World.script, Array.getD_eq_getD_getElem?, hi]
        rw [← hw, h]
      · rfl
  show { w with scripts := w.scripts.modify i f } = { w with scripts := w.scripts.modify i g }
  rw [hs]

/-! ## Ticks -/

variable (host i)

/-- Ticks, one after the other, as long as the script may have more; does it go on after them? -/
def ticks : Nat → ScriptM σ ι Bool
  | 0 => return true
  | n + 1 => do
    if ← tick host i then ticks n
    else return false

/-- After a statement: a script at its end is finished, and another one gets its ticks. -/
def onward (n : Nat) : ScriptM σ ι Bool := do
  if (← script i).isRunning then ticks host i n
  else
    finish host i
    return false

variable {host i}

theorem onward_of_running {w : World σ ι} (h : (w.script i).isRunning = true) (n : Nat) :
    onward host i n w = ticks host i n w := by
  show (if (w.script i).isRunning then ticks host i n else _ : ScriptM σ ι Bool) w = _
  rw [if_pos h]

theorem onward_of_ended {w : World σ ι} (h : (w.script i).isRunning = false) (n : Nat) :
    onward host i n w = (do
      finish host i
      return false : ScriptM σ ι Bool) w := by
  show (if (w.script i).isRunning then ticks host i n else _ : ScriptM σ ι Bool) w = _
  rw [if_neg (by rw [h]; decide)]

/-- A running script gets its step at once. -/
theorem tick_of_running {w : World σ ι} (h : (w.script i).activity = .running) :
    tick host i w = step host i { w with active := some i } := by
  rw [tick_eq_chance, bind_of_ok (chance_of_running host i h)]

/-- **A tick of a ready script** runs its statement with everything around it, and the script goes
on from where it is then. -/
theorem onward_succ (hh : host.Keeps (Steady T i)) {F : Frames} {t : Statement} {w : World σ ι}
    (hw : Ready T i F (some t) w) (n : Nat) :
    onward host i (n + 1) w =
      (around host i t (executeStatement host i t) >>= fun _ => onward host i n) w := by
  have hL := steady_lenient (σ := σ) (ι := ι) T i
  have hw₁ : Ready T i F (some t) { w with active := some i } :=
    hw.idle ⟨rfl, rfl, rfl, rfl, fun _ => rfl⟩
  have htick : tick host i w = stepStatement host i t { w with active := some i } := by
    rw [tick_of_running hw.activity, step_of_some host i hw₁.cursor]
  have hleft : onward host i (n + 1) w =
      (stepStatement host i t >>= fun b => if b then ticks host i n else return false)
        { w with active := some i } := by
    rw [onward_of_running (by rw [hw.isRunning]; rfl)]
    show (tick host i >>= fun b => if b then ticks host i n else return false) w = _
    rw [bind_apply, htick, ← bind_apply]
  rw [hleft]
  unfold stepStatement around
  simp only [bind_assoc]
  show _ = (emit host (.beforeStatement i t) >>= _) { w with active := some i }
  refine bind_congr_ok fun _ u hu => ?_
  have hwu : Ready T i F (some t) u := hw₁.steady ((keeps_emit hL hh _).ok hu)
  refine bind_congr_ok fun e v hv => ?_
  have hwv : Ready T i F (some t) v := hwu.steady ((keeps_logStep hL.logged i t).ok hv)
  rw [bind_apply, bind_apply]
  have hnext : executeNext host i v = _ := executeNext_of_cursor host i hwv.cursor
  cases hx : executeStatement host i t v with
  | error fault v' =>
    have hn : executeNext host i v = .error fault v' := by rw [hnext, bind_apply, hx]
    rw [attempt_of_error hn, attempt_of_error hx]
    simp only [bind_assoc]
    refine bind_congr_ok fun _ _ _ => ?_
    rfl
  | ok a v' =>
    have hn : executeNext host i v = .ok (v'.script i).isRunning v' := by
      rw [hnext, bind_of_ok hx]
      rfl
    rw [attempt_of_ok hn, attempt_of_ok hx]
    simp only [bind_assoc]
    refine bind_congr_ok fun _ u' hu' => ?_
    -- the rules and the listeners after the statement leave the cursor alone
    have hsame : (u'.script i).isRunning = (v'.script i).isRunning := by
      rw [Script.isRunning, Script.isRunning, ((keeps_afterStep hL hh i t e).ok hu').cursor]
    rw [← hsame, pure_bind]
    cases hr : (u'.script i).isRunning with
    | true =>
      rw [onward_of_running hr]
      rfl
    | false =>
      rw [onward_of_ended hr]
      show ((finish host i >>= fun _ => pure false) >>= fun b =>
        if b = true then ticks host i n else pure false) u' = _
      rw [bind_assoc]
      rfl

end

end Cadence
