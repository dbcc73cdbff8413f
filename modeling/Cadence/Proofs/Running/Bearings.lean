/-
  BEARINGS — a statement takes its bearings from the tree of its script, and then moves.

  In between, a guard may be asked, and whoever answers may load another tree.  The headers of
  choices and loops look at the script again afterwards, so the way on is one of the tree that is
  there then.  The guards of the further branches of a choice are asked with the ways out already in
  hand: for these it is assumed that they leave the tree alone.

  1. **Bearings** — all scripts are present, and the tree of one is known (`Bearings`).  What is
     SECURED by an operation holds after it, whether it fails or not (`Secures`): a look at the
     script takes bearings, moves inside of the tree keep them, and any guard may lose them.

  2. **Statements and ticks** — every statement, and with it every tick, leaves all scripts present
     (`upholds_executeNext`, `Upholding.tick`).
-/
import Cadence.Proofs.Running.Present
import Cadence.Proofs.Running.Trip

namespace Cadence

open ScriptM

/-! ## Worlds -/

/-- The guards of the further branches of a tree's choices are among some. -/
def Node.Guards (mild : Site → Prop) (root : Node) : Prop :=
  ∀ load t head, (Tree.mk root load).Has t → t.head? = some head → head.kind = .elseIf → mild head

/-- A tree without statements has no guards. -/
theorem Node.guards_of_bare {mild : Site → Prop} {root : Node} (h : root.children = []) :
    root.Guards mild := by
  rintro load t head ⟨k, hk⟩
  obtain ⟨n, hn, -⟩ := Tree.statement?_eq_some.mp hk
  rw [show (Tree.mk root load).root.children = [] from h] at hn
  cases hn

section

variable {σ ι α β : Type} {mild : Site → Prop}

/-- All scripts are present, and the guards of their further branches are among some. -/
def World.Present (mild : Site → Prop) (w : World σ ι) : Prop :=
  ∀ i, (w.script i).Present ∧ (w.script i).root.Guards mild

/-- Scripts that are present stay so. -/
def Upholds (mild : Site → Prop) (w w' : World σ ι) : Prop := w.Present mild → w'.Present mild

/-- A script has the same tree, as loaded. -/
def SameTree (i : Nat) (w w' : World σ ι) : Prop := Same Script.tree i w w'

/-- All scripts are present, and one of them has a tree that is known. -/
structure Bearings (mild : Site → Prop) (i : Nat) (T : Tree) (w : World σ ι) : Prop where
  /-- All are present. -/
  present : w.Present mild
  /-- Its tree is known. -/
  tree : (w.script i).tree = T

theorem upholds_lenient : Lenient (Upholds (σ := σ) (ι := ι) mild) where
  trans h h' hu := h' (h hu)
  idle {w w'} h hw i := by
    have hs : (w'.script i).control = (w.script i).control := h.same Script.control (fun _ => rfl) i
    refine ⟨(hw i).1.of_control hs, ?_⟩
    rw [Script.root_of_tree (Script.tree_of_control hs)]
    exact (hw i).2

theorem upholds_tolerant : Tolerant (Upholds (σ := σ) (ι := ι) mild) := upholds_lenient.toTolerant

theorem sameTree_tolerant (i : Nat) : Tolerant (SameTree (σ := σ) (ι := ι) i) :=
  (same_lenient Script.tree (fun _ => rfl) i).toTolerant

/-- A change of one script after which it is present, and has guards of the same kind. -/
theorem upholds_modifyScript (i : Nat) {f : Script ι → Script ι} (w : World σ ι)
    (hf : (w.script i).Present ∧ (w.script i).root.Guards mild →
      (f (w.script i)).Present ∧ (f (w.script i)).root.Guards mild) :
    Upholds mild w (w.modifyScript i f) := by
  intro hw j
  rw [World.script_modifyScript]
  split
  · rename_i hij
    exact hij.1 ▸ hf (hw i)
  · exact hw j

/-- A change of one script that leaves its root. -/
theorem upholds_modifyScript_of_root (i : Nat) {f : Script ι → Script ι} (w : World σ ι)
    (hroot : (f (w.script i)).root = (w.script i).root)
    (hf : (w.script i).Present → (f (w.script i)).Present) :
    Upholds mild w (w.modifyScript i f) :=
  upholds_modifyScript i w fun h => ⟨hf h.1, hroot ▸ h.2⟩

theorem upholds_suspends (i : Nat) {f : Script ι → Script ι} (hf : Script.Suspends f)
    (w : World σ ι) : Upholds mild w (w.modifyScript i f) :=
  have hs := hf.control (w.script i)
  upholds_modifyScript_of_root i w (Script.root_of_tree (Script.tree_of_control hs)) fun h =>
    h.of_control hs

/-- What holds before an operation lets something hold after it, whether it fails or not. -/
def Secures (P : World σ ι → Prop) (x : ScriptM σ ι α) (Q : World σ ι → Prop) : Prop :=
  ∀ w, P w → Q (x.after w)

namespace Secures

variable {P M Q : World σ ι → Prop}

theorem bind {x : ScriptM σ ι α} {f : α → ScriptM σ ι β} (hx : Secures P x M)
    (hf : ∀ a, Secures M (f a) Q) (hM : ∀ w, M w → Q w) : Secures P (x >>= f) Q := by
  intro w hw
  have hu := hx w hw
  cases h : x w with
  | ok a u =>
    rw [after_of_ok h] at hu
    rw [after_bind_of_ok h]
    exact hf a u hu
  | error fault u =>
    rw [after_of_error h] at hu
    rw [after_bind_of_error h]
    exact hM u hu

theorem ite {c : Prop} [Decidable c] {x y : ScriptM σ ι α} (hx : Secures P x Q)
    (hy : Secures P y Q) : Secures P (if c then x else y) Q := by
  split
  · exact hx
  · exact hy

variable {i : Nat} {T : Tree}

/-- Whoever looks at a script takes bearings on its tree. -/
theorem look {f : Script ι → ScriptM σ ι α}
    (hf : ∀ s : Script ι, s.Present → s.root.Guards mild →
      Secures (Bearings mild i s.tree) (f s) (World.Present mild)) :
    Secures (World.Present mild) (script i >>= f) (World.Present mild) :=
  fun w hw => hf (w.script i) (hw i).1 (hw i).2 w ⟨hw, rfl⟩

/-- Looking at the script again tells nothing new of its tree. -/
theorem lookAgain {f : Script ι → ScriptM σ ι α}
    (hf : ∀ s, Secures (Bearings mild i T) (f s) Q) :
    Secures (Bearings mild i T) (script i >>= f) Q :=
  fun w hw => hf (w.script i) w hw

/-- What keeps all scripts present needs no bearings, and they may be lost over it. -/
theorem forget {x : ScriptM σ ι α} (hx : Secures (World.Present mild) x (World.Present mild)) :
    Secures (Bearings mild i T) x (World.Present mild) :=
  fun w hw => hx w hw.present

/-- The bearings are good as long as nobody loads a tree. -/
theorem bear {x : ScriptM σ ι α} (hx : Keeps (Upholds mild) x) (ht : Keeps (SameTree i) x) :
    Secures (Bearings mild i T) x (Bearings mild i T) :=
  fun w hw => ⟨hx w hw.present, (ht w).trans hw.tree⟩

/-- What is secured with bearings is secured. -/
theorem done {x : ScriptM σ ι α} (hx : Secures (Bearings mild i T) x (Bearings mild i T)) :
    Secures (Bearings mild i T) x (World.Present mild) :=
  fun w hw => (hx w hw).present

/-- One step with bearings, and then the rest. -/
theorem step {x : ScriptM σ ι α} {f : α → ScriptM σ ι β}
    (hx : Secures (Bearings mild i T) x (Bearings mild i T))
    (hf : ∀ a, Secures (Bearings mild i T) (f a) (World.Present mild)) :
    Secures (Bearings mild i T) (x >>= f) (World.Present mild) :=
  hx.bind hf fun _ hw => hw.present

/-- A change of a script that leaves its tree. -/
theorem change {f : Script ι → Script ι} (htree : ∀ s, (f s).tree = s.tree)
    (hf : ∀ s : Script ι, s.Present → s.tree = T → (f s).Present) :
    Secures (Bearings mild i T) (modifyScript i f : ScriptM σ ι Unit) (Bearings mild i T) := by
  intro w hw
  refine ⟨upholds_modifyScript_of_root i w (Script.root_of_tree (htree _))
    (fun h => hf _ h hw.tree) hw.present, ?_⟩
  exact (same_modifyScript i i w htree).trans hw.tree

end Secures

/-! ## Statements -/

section

variable {host : Host σ ι} {i : Nat} {T : Tree}

theorem upholds_advance : Keeps (Upholds mild) (advance i : ScriptM σ ι Unit) :=
  .modify fun w =>
    have htree := Script.tree_of_control (Script.suspends_clearTimeout.control (w.script i))
    upholds_modifyScript_of_root i w (Script.root_of_tree htree) fun h => h.advance

theorem secures_moveTo {c : Option Statement} (hc : ∀ t, c = some t → T.Has t) :
    Secures (Bearings mild i T) (moveTo i c : ScriptM σ ι Unit) (Bearings mild i T) :=
  .change (fun _ => rfl) fun _ h ht => h.place (ht ▸ hc)

/-- To a statement of the tree. -/
theorem secures_moveTo_some {t : Statement} (ht : T.Has t) :
    Secures (Bearings mild i T) (moveTo i (some t) : ScriptM σ ι Unit) (Bearings mild i T) :=
  secures_moveTo fun _ hu => Option.some.inj hu ▸ ht

theorem secures_pushFrame {t : Statement} (ht : T.Has t) :
    Secures (Bearings mild i T) (pushFrame i t : ScriptM σ ι Unit) (Bearings mild i T) :=
  .change (fun _ => rfl) fun _ h hT => h.frame (h.frames.push (hT ▸ ht))

theorem secures_popFrame :
    Secures (Bearings mild i T) (modifyScript i Script.popFrame : ScriptM σ ι Unit)
      (Bearings mild i T) :=
  .change (fun _ => rfl) fun _ h _ => h.frame h.frames.pop

theorem secures_unwind (t : Statement) (inclusive : Bool) :
    Secures (Bearings mild i T)
      (modifyScript i fun s => { s with frames := s.frames.unwind t inclusive } : ScriptM σ ι Unit)
      (Bearings mild i T) :=
  .change (fun _ => rfl) fun _ h _ => h.frame (h.frames.unwind t inclusive)

theorem secures_mapTop {f : Frame → Frame} (hf : ∀ x, (f x).start = x.start) :
    Secures (Bearings mild i T) (modifyScript i (·.mapTop f) : ScriptM σ ι Unit)
      (Bearings mild i T) :=
  .change (fun _ => rfl) fun _ h _ => h.frame (h.frames.mapTop hf)

theorem secures_clearTimeout :
    Secures (Bearings mild i T) (modifyScript i Script.clearTimeout : ScriptM σ ι Unit)
      (Bearings mild i T) :=
  .change (fun s => Script.tree_of_control (Script.suspends_clearTimeout.control s))
    fun _ h _ => h.clearTimeout

theorem secures_advance :
    Secures (Bearings mild i T) (advance i : ScriptM σ ι Unit) (World.Present mild) :=
  .forget upholds_advance

theorem secures_fail (site : Option Site) (cause : Cause) :
    Secures (Bearings mild i T) (fail site cause : ScriptM σ ι α) (World.Present mild) :=
  fun _ hw => hw.present

/-! ### Choices -/

variable (hh : host.Serves (Upholds mild))
  (hguard : ∀ head, head.kind = .elseIf → mild head →
    Keeps (SameTree i) (evaluateGuard host i head))

include hh hguard in
/-- The ways out of a choice stay ways out as long as the guards of its branches leave the tree. -/
theorem secures_enterBranch (hT : T.root.Guards mild) {fallback : Statement} (hf : T.Has fallback)
    {branches : List Statement}
    (hbranches : ∀ u ∈ branches,
      T.Has u ∧ ∀ head, u.head? = some head → head.kind.isBranch = true) :
    Secures (Bearings mild i T) (enterBranch host i fallback branches) (Bearings mild i T) := by
  induction branches with
  | nil => exact secures_moveTo_some hf
  | cons u rest ih =>
    have ih := ih fun v hv => hbranches v (List.mem_cons_of_mem u hv)
    obtain ⟨hu, hbranch⟩ := hbranches u List.mem_cons_self
    have enter : Secures (Bearings mild i T) (moveTo i u.next? : ScriptM σ ι Unit)
        (Bearings mild i T) := secures_moveTo fun _ hv => hu.next hv
    unfold enterBranch
    split
    · exact ih
    · rename_i head hhead
      by_cases helse : head.kind = .elseStart
      · rw [if_pos helse]
        exact enter
      · rw [if_neg helse]
        have helseIf : head.kind = .elseIf := by
          have := hbranch head hhead
          unfold Kind.isBranch at this
          simpa [helse] using this
        have leaves := hguard head helseIf (hT T.load u head hu hhead helseIf)
        refine .bind (.bear (keeps_evaluateGuard upholds_tolerant i hh head) leaves)
          (fun b => ?_) fun _ => id
        exact .ite enter ih

include hh hguard in
theorem secures_executeIf {t : Statement} (ht : T.Has t) (head : Site) :
    Secures (Bearings mild i T) (executeIf host i t head) (World.Present mild) := by
  unfold executeIf
  refine .step (secures_pushFrame ht) fun _ => ?_
  -- whoever answers may load a tree, so that the script is looked at again
  refine .forget (.bind (keeps_evaluateGuard upholds_tolerant i hh head) (fun b => ?_) fun _ => id)
  refine .ite upholds_advance (.look fun s hs hguards => ?_)
  split
  · exact secures_fail _ _
  · rename_i fallback hfallback
    refine .step secures_clearTimeout fun _ => .done ?_
    exact secures_enterBranch hh hguard hguards (Script.has_of_linked? hfallback)
      fun u hu => hs.of_mem_branches hu

theorem secures_skipBranch (t : Statement) (head : Site) :
    Secures (World.Present mild) (skipBranch i t head : ScriptM σ ι Unit) (World.Present mild) := by
  unfold skipBranch
  refine .look fun s _ _ => ?_
  split
  · exact secures_fail _ _
  · rename_i u hu
    exact .step secures_clearTimeout fun _ => .done (secures_moveTo_some (Script.has_of_linked? hu))

theorem secures_closeChoice :
    Secures (Bearings mild i T)
      (do modifyScript i Script.popFrame; advance i : ScriptM σ ι Unit) (World.Present mild) :=
  .step secures_popFrame fun _ => secures_advance

/-! ### Loops -/

/-- From the header of a loop to what follows its end. -/
theorem secures_exitLoop (t : Statement) (head : Site) :
    Secures (World.Present mild) (exitLoop i t head : ScriptM σ ι Unit) (World.Present mild) := by
  unfold exitLoop
  refine .look fun s _ _ => ?_
  split
  · exact secures_fail _ _
  · rename_i u hu
    refine .step secures_popFrame fun _ => ?_
    exact .step (secures_moveTo_some (Script.has_of_linked? hu)) fun _ => secures_advance

/-- A header opens a frame, unless it is in its own. -/
theorem secures_unlessStanding {t : Statement} {x y : ScriptM σ ι Unit}
    (hx : Secures (Bearings mild i T) x (World.Present mild))
    (hy : Secures (Bearings mild i T) y (World.Present mild)) :
    Secures (Bearings mild i T) (do if !(← standsIn i t) then x else y) (World.Present mild) := by
  unfold standsIn
  rw [bind_assoc]
  exact .lookAgain fun s => .ite hx hy

include hh in
theorem secures_executeWhile {t : Statement} (ht : T.Has t) (head : Site) :
    Secures (Bearings mild i T) (executeWhile host i t head) (World.Present mild) := by
  have ask : Secures (World.Present mild) (do
      if ← evaluateGuard host i head then advance i else exitLoop i t head)
      (World.Present mild) :=
    .bind (keeps_evaluateGuard upholds_tolerant i hh head)
      (fun b => .ite upholds_advance (secures_exitLoop t head)) fun _ => id
  exact secures_unlessStanding (.step (secures_pushFrame ht) fun _ => .forget ask) (.forget ask)

theorem secures_startCount (bound : Option Int) :
    Secures (Bearings mild i T) (startCount i bound : ScriptM σ ι Unit) (Bearings mild i T) :=
  secures_mapTop fun _ => rfl

theorem secures_countPass :
    Secures (Bearings mild i T) (countPass i : ScriptM σ ι Unit) (Bearings mild i T) := by
  unfold countPass
  refine .lookAgain fun s => ?_
  split
  · exact fun _ => id
  · exact secures_mapTop fun _ => rfl

theorem secures_followCount (t : Statement) (head : Site) :
    Secures (Bearings mild i T) (followCount i t head : ScriptM σ ι Unit) (World.Present mild) := by
  unfold followCount
  refine .lookAgain fun s => ?_
  split
  · exact .forget (secures_exitLoop t head)
  · exact .ite secures_advance (.forget (secures_exitLoop t head))

theorem secures_executeFor {t : Statement} (ht : T.Has t) (head : Site) :
    Secures (Bearings mild i T) (executeFor i t head : ScriptM σ ι Unit) (World.Present mild) := by
  unfold executeFor
  split
  · exact secures_fail _ _
  · refine .ite (secures_fail _ _) (secures_unlessStanding ?_ ?_)
    · refine .step (secures_pushFrame ht) fun _ => ?_
      refine .step (.bear (.reading upholds_tolerant _) (.reading (sameTree_tolerant i) _)) ?_
      exact fun n => .step (secures_startCount _) fun _ => secures_followCount t head
    · exact .step secures_countPass fun _ => secures_followCount t head

theorem secures_followElement (t : Statement) (head : Site) (name : String) (list : Site)
    (listName : String) :
    Secures (Bearings mild i T) (followElement i t head name list listName : ScriptM σ ι Unit)
      (World.Present mild) := by
  unfold followElement
  refine .lookAgain fun s => .step (.bear (keeps_listElement upholds_tolerant list listName _)
    (keeps_listElement (sameTree_tolerant i) list listName _)) fun value => ?_
  split
  · exact .step (secures_mapTop fun _ => rfl) fun _ => secures_advance
  · exact .step (secures_mapTop fun _ => rfl) fun _ => .forget (secures_exitLoop t head)

theorem secures_executeForEach {t : Statement} (ht : T.Has t) (head : Site) :
    Secures (Bearings mild i T) (executeForEach i t head : ScriptM σ ι Unit)
      (World.Present mild) := by
  unfold executeForEach
  split
  · rename_i name list listName _ _
    have go : Secures (Bearings mild i T)
        (followElement i t head name list listName : ScriptM σ ι Unit) (World.Present mild) :=
      secures_followElement t head name list listName
    refine secures_unlessStanding ?_ (.step secures_countPass fun _ => go)
    exact .step (secures_pushFrame ht) fun _ => .step (secures_startCount none) fun _ => go
  · exact secures_fail _ _

theorem secures_executeLoopEnd (t : Statement) (head : Site) :
    Secures (World.Present mild) (executeLoopEnd i t head : ScriptM σ ι Unit)
      (World.Present mild) := by
  unfold executeLoopEnd
  refine .look fun s _ _ => ?_
  split
  · exact secures_fail _ _
  · rename_i u hu
    exact .done (secures_moveTo_some (Script.has_of_linked? hu))

theorem secures_executeBreak (t : Statement) (head : Site) :
    Secures (World.Present mild) (executeBreak i t head : ScriptM σ ι Unit)
      (World.Present mild) := by
  unfold executeBreak
  refine .look fun s _ _ => ?_
  split
  · rename_i header u _ hu
    refine .step (secures_unwind header true) fun _ => ?_
    exact .step (secures_moveTo_some (Script.has_of_linked? hu)) fun _ => secures_advance
  · exact secures_fail _ _

theorem secures_executeContinue (t : Statement) (head : Site) :
    Secures (World.Present mild) (executeContinue i t head : ScriptM σ ι Unit)
      (World.Present mild) := by
  unfold executeContinue
  refine .look fun s _ _ => ?_
  split
  · exact secures_fail _ _
  · rename_i header hheader
    refine .step (secures_unwind header false) fun _ => .done ?_
    exact secures_moveTo_some (Script.has_of_linked? hheader)

/-! ### The rest -/

theorem secures_executeReplay {t : Statement} (ht : T.Has t) :
    Secures (Bearings mild i T) (executeReplay i t : ScriptM σ ι Unit) (World.Present mild) := by
  obtain ⟨k, hk⟩ := ht
  refine .done (.change (fun _ => rfl) fun s h hT => ?_)
  refine (h.frame h.frames.bottom).place fun u hu => ⟨0, ?_⟩
  show s.tree.statement? 0 = some u
  rw [hT, ← Tree.first_of_statement? hk]
  exact hu

/-! ### Commands -/

theorem upholds_returnFromGoto (i : Nat) (w : World σ ι) :
    Upholds mild w (w.modifyScript i Script.returnFromGoto) := by
  refine upholds_modifyScript_of_root i w ?_ fun h => h.returnFromGoto
  unfold Script.returnFromGoto
  split
  · rfl
  · rfl

/-- Scripts that are suspended or sent about stay in their trees. -/
theorem upholds_roams : Roams (Upholds (σ := σ) (ι := ι) mild) where
  toLenient := upholds_lenient
  suspend i _ hf w := upholds_suspends i hf w
  jump i w s line hs := by
    refine upholds_modifyScript_of_root i w ?_ fun h => h.gotoLine? hs
    obtain ⟨t, rfl⟩ := Script.gotoLine?_eq_some hs
    rfl
  comeBack i w := upholds_returnFromGoto i w

variable (hc : ∀ t word args quiet force,
  Keeps (Upholds mild) (host.command t word args quiet force))

include hh hguard hc

theorem secures_executeHead {t : Statement} (ht : T.Has t) (head : Site) :
    Secures (Bearings mild i T) (executeHead host i t head) (World.Present mild) := by
  have command : Secures (Bearings mild i T)
      (do if ← executeCommand host i t.site.children then advance i) (World.Present mild) :=
    .forget <| .bind (keeps_executeCommand upholds_tolerant hh upholds_roams.bundled hc i _)
      (fun b => .ite upholds_advance fun _ => id) fun _ => id
  unfold executeHead
  split
  case h_1 => exact secures_executeIf hh hguard ht head
  case h_2 => exact .forget (secures_skipBranch t head)
  case h_3 => exact .forget (secures_skipBranch t head)
  case h_4 => exact secures_closeChoice
  case h_5 => exact secures_executeWhile hh ht head
  case h_6 => exact secures_executeFor ht head
  case h_7 => exact secures_executeForEach ht head
  case h_8 => exact .forget (secures_executeLoopEnd t head)
  case h_9 => exact .forget (secures_executeLoopEnd t head)
  case h_10 => exact .forget (secures_executeBreak t head)
  case h_11 => exact .forget (secures_executeContinue t head)
  case h_12 => exact .done (secures_moveTo nofun)
  case h_13 => exact secures_executeReplay ht
  case h_14 => exact command
  case h_15 => exact command
  case h_16 => exact command
  case h_17 => exact command
  case h_18 => exact secures_fail _ _

theorem secures_executeStatement {t : Statement} (ht : T.Has t) :
    Secures (Bearings mild i T) (executeStatement host i t) (World.Present mild) := by
  unfold executeStatement
  refine .ite (secures_fail _ _) ?_
  split
  · exact secures_fail _ _
  · exact secures_executeHead hh hguard hc ht _

/-- **A statement leaves its script in its tree**, and with it all others. -/
theorem upholds_executeNext : Keeps (Upholds mild) (executeNext host i) := by
  unfold executeNext
  refine Secures.look fun s hs _ => ?_
  split
  · exact fun w hw => hw.present
  · rename_i t ht
    exact .bind (secures_executeStatement hh hguard hc (hs.cursor t ht)) (fun _ _ => id) fun _ => id

end

/-! ## Ticks -/

/-- What the host does upholds what is known of all scripts, and its guards of further branches
leave the tree. -/
structure Upholding (mild : Site → Prop) (host : Host σ ι) : Prop where
  /-- What it does around the statements. -/
  around : host.Keeps (Upholds mild)
  /-- What it does for commands. -/
  command : ∀ t word args quiet force,
    Keeps (Upholds mild) (host.command t word args quiet force)
  /-- What it does when a callback is asked. -/
  callback : ∀ t, Keeps (Upholds mild) (host.callback t)
  /-- Its guards. -/
  guard : ∀ i head, head.kind = .elseIf → mild head →
    Keeps (SameTree i) (evaluateGuard host i head)

/-- A tick leaves all scripts in their trees, whether it fails or not. -/
theorem Upholding.tick {host : Host σ ι} (h : Upholding mild host) (i : Nat) :
    Keeps (Upholds mild) (tick host i) := by
  have hL : Lenient (Upholds (σ := σ) (ι := ι) mild) := upholds_lenient
  refine keeps_tick_of_next host i upholds_tolerant (keeps_logStep hL.logged i) (hL.activated none)
    h.around ?_ (upholds_executeNext h.around.serves (h.guard i) h.command)
  refine keeps_chance host i upholds_tolerant (hL.activated (some i)) ?_ ?_ upholds_advance
    h.callback
  · exact upholds_suspends i Script.suspends_unpause
  · exact upholds_suspends i fun s => ⟨s.activity, s.deadline, none, rfl⟩

end

end Cadence
