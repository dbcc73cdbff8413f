/-
  LOOPING — who binds the variables of a script.

  A variable is written by the header of a loop over a list, into the frame that the loop has opened,
  and by nothing else.  So where ticks and operations lead to from a world without scripts, all that
  is bound is the variable of a loop that is open.

  1. **Frames** — a frame is its loop's OWN if it binds no other variables than those of headers that
     count as its opener (`Frame.Own`), and a world is LOOPED if all frames are (`World.Looped`).
     Opening, closing and counting leave it so, and with them all statements but one (`Walks`).
  2. **The header of a loop over a list** — before it writes its variable it has opened a frame or
     found itself in its own, so that the innermost frame is its own by then (`AtLoop`).
  3. **What ticks and operations lead to** — `Progress`, and with it the hosts that write no
     variables either (`Restrained`).  The result is `Progress.looped`.
-/
import Cadence.Proofs.Running.Journey

namespace Cadence

open ScriptM

variable {σ ι : Type}

/-! ## Frames of loops -/

/-- The statement is the header of a loop over a list, with this variable. -/
def Statement.Iterates (t : Statement) (name : String) : Prop :=
  ∃ head first rest, t.head? = some head ∧ head.kind = .forEachStart ∧
    head.children = first :: rest ∧ first.lexeme = some name

/-- What a frame binds are variables of the loop that opened it. -/
def Frame.Own (f : Frame) : Prop :=
  ∀ name a, f.vars.get? name = some a → ∃ t, f.openedBy t = true ∧ t.Iterates name

/-- All frames are their loops' own. -/
def Frames.Looped (c : Frames) : Prop := ∀ f ∈ c.toList, f.Own

/-- **What is bound is the variable of a loop that is open**, in every script. -/
def World.Looped (w : World σ ι) : Prop := ∀ i, (w.script i).frames.Looped

/-- A frame without variables is anybody's. -/
theorem Frame.own_of_empty {f : Frame} (h : f.vars = .empty) : f.Own := by
  intro name a ha
  rw [h] at ha
  cases ha

namespace Frames.Looped

variable {c : Frames}

theorem push (h : c.Looped) (t : Statement) : (c.push t).Looped :=
  forall_push h (Frame.own_of_empty rfl)

theorem mapTop (h : c.Looped) {f : Frame → Frame} (hf : c.top.Own → (f c.top).Own) :
    (c.mapTop f).Looped :=
  forall_mapTop h hf

theorem closes (h : c.Looped) {f : Frames → Frames} (hf : Closes f) : (f c).Looped :=
  fun g hg => h g (hf c g hg)

/-- A single frame without variables. -/
theorem outermost : ({} : Frames).Looped := by
  intro f hf
  obtain rfl := List.mem_singleton.mp hf
  exact Frame.own_of_empty rfl

end Frames.Looped

/-! ## Worlds -/

/-- A world that is looped stays so. -/
def StaysLooped (w w' : World σ ι) : Prop := w.Looped → w'.Looped

theorem staysLooped_of_frames {w w' : World σ ι} (h : ∀ i, Same Script.frames i w w') :
    StaysLooped w w' := by
  intro hw i
  rw [h i]
  exact hw i

theorem staysLooped_lenient : Lenient (StaysLooped (σ := σ) (ι := ι)) where
  trans h h' hu := h' (h hu)
  idle h := staysLooped_of_frames fun i => h.same Script.frames (fun _ => rfl) i

theorem staysLooped_modifyScript (i : Nat) {f : Script ι → Script ι} (w : World σ ι)
    (hf : (w.script i).frames.Looped → (f (w.script i)).frames.Looped) :
    StaysLooped w (w.modifyScript i f) := by
  intro hw j
  rw [World.script_modifyScript]
  split
  · next hij => exact hij.1 ▸ hf (hw i)
  · exact hw j

/-- Scripts that are suspended or sent about keep their frames. -/
theorem staysLooped_roams : Roams (StaysLooped (σ := σ) (ι := ι)) := by
  refine .of_roves staysLooped_lenient fun j f w hf => ?_
  obtain ⟨cursor, returns, activity, deadline, callback, hs⟩ := hf
  exact staysLooped_of_frames fun i => same_of_tells i j w (by rw [hs])

/-- Opening, closing and counting write no variables. -/
theorem staysLooped_walks (i : Nat) : Walks (StaysLooped (σ := σ) (ι := ι)) i where
  toTolerant := staysLooped_lenient.toTolerant
  turn w _ := staysLooped_of_frames fun j => same_modifyScript j i w fun _ => rfl
  open_ w t := staysLooped_modifyScript i w fun h => h.push t
  close w _ hf := staysLooped_modifyScript i w fun h => h.closes hf
  count w _ := staysLooped_modifyScript i w fun h => h.mapTop id
  settle := staysLooped_roams.suspend i Script.suspends_clearTimeout

/-! ## The header of a loop over a list -/

/-- The world is looped, and the innermost frame of a script is a statement's own. -/
structure AtLoop (i : Nat) (t : Statement) (w : World σ ι) : Prop where
  /-- The world is looped. -/
  looped : w.Looped
  /-- If there is such a script, the statement has opened its innermost frame. -/
  own : i < w.scripts.size → (w.script i).frames.top.openedBy t = true

namespace AtLoop

variable {i : Nat} {t : Statement} {name : String}

theorem pushFrame (t : Statement) :
    Secures World.Looped (pushFrame i t : ScriptM σ ι Unit) (AtLoop i t) := by
  intro w hw
  refine ⟨(staysLooped_walks i).open_ w t hw, fun hi => ?_⟩
  have hi : i < w.scripts.size := (w.size_modifyScript i _).symm ▸ hi
  show ((w.modifyScript i (·.pushFrame t)).script i).frames.top.openedBy t = true
  rw [World.script_modifyScript_self _ hi]
  exact Frames.openedBy_push _ t

/-- Counting does not change whose frame it is. -/
theorem count (loop : Option Count) :
    Secures (AtLoop i t) (modifyScript i (·.mapTop fun f => { f with loop }) : ScriptM σ ι Unit)
      (AtLoop i t) := by
  intro w hw
  refine ⟨(staysLooped_walks i).count w loop hw.looped, fun hi => ?_⟩
  have hi : i < w.scripts.size := (w.size_modifyScript i _).symm ▸ hi
  show ((w.modifyScript i _).script i).frames.top.openedBy t = true
  rw [World.script_modifyScript_self _ hi]
  exact hw.own hi

theorem countPass : Secures (AtLoop i t) (countPass i : ScriptM σ ι Unit) (AtLoop i t) := by
  intro w hw
  cases hloop : (w.script i).frames.top.loop with
  | none =>
    rw [after_of_error (countPass_of_none hloop)]
    exact hw
  | some c =>
    have hcount := AtLoop.count (some { c with index := c.index + 1 }) w hw
    rw [after_of_ok (countPass_of_some hloop)]
    exact hcount

theorem listElement (list : Site) (listName : String) (index : Nat) :
    Secures (AtLoop i t) (listElement list listName index : ScriptM σ ι (Option Argument))
      (AtLoop i t) := by
  intro w hw
  unfold Cadence.listElement
  rw [after_mapFault, after_reading]
  exact hw

/-- In its own frame a loop may write its variable, and no other. -/
theorem write (ht : t.Iterates name) (change : Table Argument → Table Argument)
    (hchange : ∀ vars other, name ≠ other → (change vars).get? other = vars.get? other) :
    Secures (AtLoop i t)
      (modifyScript i (·.mapTop fun f => { f with vars := change f.vars }) : ScriptM σ ι Unit)
      World.Looped := by
  intro w hw
  show (w.modifyScript i (·.mapTop fun f => { f with vars := change f.vars })).Looped
  rcases Nat.lt_or_ge i w.scripts.size with hi | hi
  · refine staysLooped_modifyScript i w (fun hs => hs.mapTop fun hown other a ha => ?_) hw.looped
    by_cases hname : name = other
    · subst hname
      exact ⟨t, hw.own hi, ht⟩
    · exact hown other a ((hchange _ other hname).symm.trans ha)
  · rw [World.modifyScript_of_size_le _ hi]
    exact hw.looped

theorem setVar (ht : t.Iterates name) (a : Argument) :
    Secures (AtLoop i t) (modifyScript i (·.setVar name a) : ScriptM σ ι Unit) World.Looped :=
  write ht (·.insert name a) fun vars other hne => by rw [Table.get?_insert, if_neg hne]

theorem clearVar (ht : t.Iterates name) :
    Secures (AtLoop i t) (modifyScript i (·.clearVar name) : ScriptM σ ι Unit) World.Looped :=
  write ht (·.erase name) fun vars other hne => by rw [Table.get?_erase, if_neg hne]

theorem followElement (ht : t.Iterates name) (head list : Site) (listName : String) :
    Secures (AtLoop i t) (followElement i t head name list listName : ScriptM σ ι Unit)
      World.Looped := by
  have hR := staysLooped_walks (σ := σ) (ι := ι) i
  intro w hw
  unfold Cadence.followElement
  rw [after_script_bind]
  refine (listElement list listName _).bind (fun value => ?_) (fun _ h => h.looped) w hw
  cases value with
  | some a => exact (setVar ht a).bind (fun _ => hR.advance) fun _ => id
  | none => exact (clearVar ht).bind (fun _ => hR.exitLoop t head) fun _ => id

/-- A header opens a frame, unless it is in its own. -/
theorem unlessStanding {x y : ScriptM σ ι Unit} (hx : Secures World.Looped x World.Looped)
    (hy : Secures (AtLoop i t) y World.Looped) :
    Secures World.Looped (do if !(← standsIn i t) then x else y) World.Looped := by
  intro w hw
  show ((if !(w.script i).frames.top.openedBy t then x else y : ScriptM σ ι Unit).after w).Looped
  cases hown : (w.script i).frames.top.openedBy t with
  | false => exact hx w hw
  | true => exact hy w ⟨hw, fun _ => hown⟩

end AtLoop

/-- **The header of a loop over a list writes its own variable only.** -/
theorem staysLooped_executeForEach (i : Nat) {t : Statement} {head : Site}
    (hhead : t.head? = some head) (hkind : head.kind = .forEachStart) :
    Keeps StaysLooped (executeForEach i t head : ScriptM σ ι Unit) := by
  unfold executeForEach
  split
  · next first name list listName rest hchildren =>
    have ht : t.Iterates name := by
      obtain ⟨c, cs, hcs, hc, -⟩ := List.map_eq_cons_iff.mp hchildren
      exact ⟨head, c, cs, hhead, hkind, hcs, congrArg Prod.snd hc⟩
    have follow := AtLoop.followElement (σ := σ) (ι := ι) (i := i) ht head list listName
    have leave : ∀ w : World σ ι, AtLoop i t w → w.Looped := fun _ h => h.looped
    refine AtLoop.unlessStanding ?_ (AtLoop.countPass.bind (fun _ => follow) leave)
    refine (AtLoop.pushFrame t).bind (fun _ => ?_) leave
    exact (AtLoop.count _).bind (fun _ => follow) leave
  · exact .fail staysLooped_lenient.toTolerant _ _

/-! ## Ticks and operations -/

/-- **A tick binds no variable but those of its loops**, if its host binds none. -/
theorem staysLooped_tick {host : Host σ ι} (hh : host.Keeps StaysLooped)
    (hc : ∀ t word args quiet force, Keeps StaysLooped (host.command t word args quiet force))
    (hk : ∀ t, Keeps StaysLooped (host.callback t)) (i : Nat) :
    Keeps StaysLooped (tick host i) := by
  have hR : Roams (StaysLooped (σ := σ) (ι := ι)) := staysLooped_roams
  have hW := staysLooped_walks (σ := σ) (ι := ι) i
  refine keeps_tick_of_next host i hR.toTolerant (keeps_logStep hR.logged i) (hR.activated none) hh
    ?_ ?_
  · refine keeps_chance host i hR.toTolerant (hR.activated (some i))
      (hR.suspend i Script.suspends_unpause) (hR.suspend i ?_) hW.advance hk
    exact fun s => ⟨s.activity, s.deadline, none, rfl⟩
  · exact hW.executeNext hh.serves hR.bundled hc fun t head => staysLooped_executeForEach i

/-- No operation binds a variable; a tree that is loaded begins without. -/
theorem Control.staysLooped (o : Control ι) :
    Keeps StaysLooped (o.perform : ScriptM σ ι Unit) := by
  have hR : Roams (StaysLooped (σ := σ) (ι := ι)) := staysLooped_roams
  cases o with
  | goto i line => exact .bind hR.toTolerant (hR.gotoScript i line) fun _ => .pure hR.toTolerant _
  | comeBack i => exact .modifyScript (hR.comeBack i)
  | advance i => exact (staysLooped_walks i).advance
  | reset i =>
    exact .modifyScript fun w => staysLooped_modifyScript i w fun _ => Frames.Looped.outermost
  | replace i root =>
    exact .modifyScript fun w => staysLooped_modifyScript i w fun _ => Frames.Looped.outermost
  | create name root =>
    refine .modify fun w hw j => ?_
    rw [World.script_push]
    split
    · exact Frames.Looped.outermost
    · exact hw j
  | active h => exact hR.helper h

mutual

/-- The ways from a world to another: ticks, failing or not, what moves cursors and loads trees, and
anything that leaves the frames of all scripts alone. -/
inductive Progress : World σ ι → World σ ι → Prop where
  | refl (w : World σ ι) : Progress w w
  | control {u v : World σ ι} (o : Control ι) : Progress u v → Progress u (o.perform.after v)
  | aside {u v w : World σ ι} : Progress u v → (∀ i, Same Script.frames i v w) → Progress u w
  | tick {u v : World σ ι} {host : Host σ ι} (i : Nat) : Restrained host → Progress u v →
      Progress u ((tick host i).after v)

/-- Whatever a host does is made of such steps, its own ticks of scripts included. -/
inductive Restrained : Host σ ι → Prop where
  | intro {host : Host σ ι}
      (command : ∀ t word args quiet force w,
        Progress w ((host.command t word args quiet force).after w))
      (expression : ∀ t word args quiet w,
        Progress w ((host.expression t word args quiet).after w))
      (computedAlias : ∀ t name w, Progress w ((host.computedAlias t name).after w))
      (listener : ∀ t e w, Progress w ((host.listener t e).after w))
      (rule : ∀ t c w, Progress w ((host.rule t c).after w))
      (callback : ∀ t w, Progress w ((host.callback t).after w))
      (write : ∀ line w, Progress w ((host.write line).after w)) :
      Restrained host

end

/-- Every step leaves a looped world looped; the induction goes into the host's own steps. -/
theorem Progress.staysLooped {u w : World σ ι} (h : Progress u w) : StaysLooped u w :=
  match h with
  | .refl _ => id
  | .control o h => fun hu => o.staysLooped _ (h.staysLooped hu)
  | .aside h hs => fun hu => staysLooped_of_frames hs (h.staysLooped hu)
  | .tick i (.intro command expression computedAlias listener rule callback write) h => fun hu =>
    staysLooped_tick
      { expression := fun t word args quiet w => (expression t word args quiet w).staysLooped
        computedAlias := fun t name w => (computedAlias t name w).staysLooped
        listener := fun t e w => (listener t e w).staysLooped
        rule := fun t c w => (rule t c w).staysLooped
        write := fun line w => (write line w).staysLooped }
      (fun t word args quiet force w => (command t word args quiet force w).staysLooped)
      (fun t w => (callback t w).staysLooped) i _ (h.staysLooped hu)

/-- **What is bound is the variable of an open loop**, in all worlds that ticks and operations lead
to from one without scripts. -/
theorem Progress.looped {w₀ w : World σ ι} (h₀ : w₀.scripts = #[]) (h : Progress w₀ w) :
    w.Looped := by
  refine h.staysLooped fun j => ?_
  have hj : w₀.script j = default := by
    rw [World.script, h₀]
    rfl
  rw [hj]
  exact Frames.Looped.outermost

end Cadence
