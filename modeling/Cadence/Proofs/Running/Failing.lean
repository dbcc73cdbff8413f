/-
  FAILING — what a statement that fails leaves behind.

  A statement may be tried again after a failure, and then it finds what the failed attempt left.

  1. **Looking first** — most statements find out where to go before they touch anything, and a
     command that jumps reads its line before it jumps.  Such an operation SPARES the script when it
     fails (`Spares`).  What never fails spares everything (`Succeeds`), so for a sequence it is
     enough that its last part looks first and that the parts before it touch nothing.

  2. **Headers** — the start of a choice and the headers of loops are different: they open their
     frame, or count its pass, before they evaluate their guard, their bound or their list.  So a
     failure leaves that frame behind (`Statement.Leaves`).

  3. **Trying again** — a guarded loop knows its own frame when it comes back and does not count, so
     its second attempt is like the first, as it is for all statements that leave nothing.  A choice
     opens a second frame; a loop that counts begins with its second pass.
-/
import Cadence.Proofs.Running.Jumping

namespace Cadence

open ScriptM

section

variable {σ ι α β : Type}

/-! ## Operations that fail -/

/-- When the operation fails, the relation holds between the worlds before and after. -/
def Spares (R : World σ ι → World σ ι → Prop) (x : ScriptM σ ι α) : Prop :=
  ∀ w fault w', x w = .error fault w' → R w w'

/-- The operation goes well in every world. -/
def Succeeds (x : ScriptM σ ι α) : Prop := ∀ w, ∃ a w', x w = .ok a w'

namespace Succeeds

theorem pure (a : α) : Succeeds (Pure.pure a : ScriptM σ ι α) := fun w => ⟨a, w, rfl⟩

theorem modifyScript (i : Nat) (f : Script ι → Script ι) :
    Succeeds (ScriptM.modifyScript i f : ScriptM σ ι Unit) :=
  fun w => ⟨(), w.modifyScript i f, rfl⟩

theorem bind {x : ScriptM σ ι α} {f : α → ScriptM σ ι β} (hx : Succeeds x)
    (hf : ∀ a, Succeeds (f a)) : Succeeds (x >>= f) := by
  intro w
  obtain ⟨a, u, hu⟩ := hx w
  obtain ⟨b, v, hv⟩ := hf a u
  exact ⟨b, v, (bind_of_ok hu).trans hv⟩

end Succeeds

namespace Spares

variable {R : World σ ι → World σ ι → Prop}

theorem of_keeps {x : ScriptM σ ι α} (hx : Keeps R x) : Spares R x := by
  intro w fault w' h
  have := hx w
  rwa [after_of_error h] at this

theorem of_succeeds {x : ScriptM σ ι α} (hx : Succeeds x) : Spares R x := by
  intro w fault w' h
  obtain ⟨a, u, hu⟩ := hx w
  rw [hu] at h
  cases h

/-- A sequence spares what its last part spares, if the first part keeps it. -/
theorem bind (hR : Lenient R) {x : ScriptM σ ι α} {f : α → ScriptM σ ι β} (hx : Keeps R x)
    (hf : ∀ a, Spares R (f a)) : Spares R (x >>= f) := by
  intro w fault w' h
  rw [bind_apply] at h
  cases hxw : x w with
  | ok a u =>
    rw [hxw] at h
    exact hR.trans (hx.ok hxw) (hf a u fault w' h)
  | error fault' u =>
    rw [hxw] at h
    cases h
    exact of_keeps hx w fault w' hxw

/-- If only the first part can fail, what it spares is spared. -/
theorem bind_succeeds {x : ScriptM σ ι α} {f : α → ScriptM σ ι β} (hx : Spares R x)
    (hf : ∀ a, Succeeds (f a)) : Spares R (x >>= f) := by
  intro w fault w' h
  rw [bind_apply] at h
  cases hxw : x w with
  | ok a u =>
    obtain ⟨b, v, hv⟩ := hf a u
    rw [hxw] at h
    cases hv.symm.trans h
  | error fault' u =>
    rw [hxw] at h
    cases h
    exact hx w fault w' hxw

theorem ite {c : Prop} [Decidable c] {x y : ScriptM σ ι α} (hx : Spares R x) (hy : Spares R y) :
    Spares R (if c then x else y) := by
  split
  · exact hx
  · exact hy

end Spares

/-! ## Where a script stands -/

/-- A script stands where it stood and has the same points to go back to; its frames are these. -/
structure Stuck (i : Nat) (F : Frames) (w w' : World σ ι) : Prop where
  /-- The cursor is the same. -/
  cursor : (w'.script i).cursor = (w.script i).cursor
  /-- The points to go back to are the same. -/
  returns : (w'.script i).returns = (w.script i).returns
  /-- These are the frames. -/
  frames : (w'.script i).frames = F

/-- A script has the same cursor, the same points to go back to and the same frames. -/
def SameControl (i : Nat) (w w' : World σ ι) : Prop := Stuck i (w.script i).frames w w'

theorem sameControl_lenient (i : Nat) : Lenient (SameControl (σ := σ) (ι := ι) i) where
  trans h h' := ⟨h'.cursor.trans h.cursor, h'.returns.trans h.returns, h'.frames.trans h.frames⟩
  idle h := ⟨h.same Script.cursor (fun _ => rfl) i, h.same Script.returns (fun _ => rfl) i,
    h.same Script.frames (fun _ => rfl) i⟩

/-- A change of some script that leaves its cursor, its points to go back to and its frames. -/
theorem sameControl_modifyScript (i j : Nat) {f : Script ι → Script ι} (w : World σ ι)
    (hf : ∀ s, (f s).cursor = s.cursor ∧ (f s).returns = s.returns ∧ (f s).frames = s.frames) :
    SameControl i w (w.modifyScript j f) where
  cursor := same_modifyScript i j w fun s => (hf s).1
  returns := same_modifyScript i j w fun s => (hf s).2.1
  frames := same_modifyScript i j w fun s => (hf s).2.2

theorem sameControl_clearTimeout (i : Nat) :
    Keeps (SameControl i) (modifyScript i Script.clearTimeout : ScriptM σ ι Unit) := by
  intro w
  refine sameControl_modifyScript i i w fun s => ⟨s.clearTimeout_cursor, s.clearTimeout_returns, ?_⟩
  unfold Script.clearTimeout
  split
  · rfl
  · rfl

/-- The bundled commands leave their script where it stands, unless they jump or return. -/
theorem sameControl_keepsFor (i : Nat) {c : Bundled.Command} (hg : c ≠ .goto) (hr : c ≠ .return_) :
    Bundled.KeepsFor (SameControl (σ := σ) (ι := ι) i) c := by
  refine Bundled.keepsFor_of_suspends (sameControl_lenient i).toTolerant (fun j f w hf => ?_) hg hr
  refine sameControl_modifyScript i j w fun s => ?_
  obtain ⟨_, _, _, he⟩ := hf s
  rw [he]
  exact ⟨rfl, rfl, rfl⟩

/-- It does not matter if only the frames were changed before. -/
theorem Stuck.before {i : Nat} {w w' : World σ ι} {f : Script ι → Script ι} {G : Frames}
    (h : Stuck i G (w.modifyScript i f) w')
    (hf : ∀ s, (f s).cursor = s.cursor ∧ (f s).returns = s.returns) : Stuck i G w w' := by
  obtain ⟨hc, hr, hG⟩ := h
  rw [World.script_modifyScript] at hc hr
  split at hc
  · rename_i hi
    rw [if_pos hi] at hr
    exact ⟨hc.trans (hf _).1, hr.trans (hf _).2, hG⟩
  · rename_i hi
    rw [if_neg hi] at hr
    exact ⟨hc, hr, hG⟩

/-! ## Statements that look first -/

variable {host : Host σ ι} {i : Nat}

theorem succeeds_gotoLine (line : Int) : Succeeds (gotoLine line : ScriptM σ ι Bool) := by
  intro w
  cases ha : w.active with
  | none => exact ⟨false, w, gotoLine_of_none ha line⟩
  | some j =>
    rw [gotoLine_of_some ha]
    cases hs : (w.script j).gotoLine? line with
    | none => exact ⟨false, w, gotoScript_of_none hs⟩
    | some s => exact ⟨true, _, gotoScript_of_some hs⟩

variable (hh : host.Keeps (SameControl i))

include hh

/-- A bundled command that fails has not moved its script. -/
theorem spares_runCommand (c : Bundled.Command) (args : List Argument) (force : Bool) :
    Spares (SameControl i) (Bundled.runCommand host c args force) := by
  have hL := sameControl_lenient (σ := σ) (ι := ι) i
  by_cases hg : c = .goto
  · subst hg
    cases args with
    | nil => exact .of_keeps (.fail hL _ _)
    | cons line more =>
      -- the line is read before the jump, and the jump does not fail
      refine .bind hL (keeps_int hL line) fun n => .of_succeeds ?_
      exact .bind (succeeds_gotoLine n) fun _ => .pure _
  · by_cases hr : c = .return_
    · subst hr
      exact .of_succeeds fun w => ⟨true, _, rfl⟩
    · exact .of_keeps (keeps_runCommand hL hh c (sameControl_keepsFor i hg hr) args force)

/-- A command that fails has not moved its script. -/
theorem spares_executeCommand
    (hc : ∀ t word args quiet force,
      Spares (SameControl i) (host.command t word args quiet force)) (tokens : List Site) :
    Spares (SameControl i) (executeCommand host i tokens) := by
  have hL := sameControl_lenient (σ := σ) (ι := ι) i
  unfold executeCommand
  simp only
  split
  · exact .of_keeps (.fail hL _ _)
  · refine .bind hL (.get hL) fun w => ?_
    split
    · exact .of_keeps (.fail hL _ _)
    · rename_i h _
      split
      · exact .of_keeps (.fail hL _ _)
      · cases h with
        | bundled c => exact spares_runCommand hh c _ _
        | host t => exact .bind_succeeds (hc _ _ _ _ _) fun _ => .pure _

theorem spares_enterBranch (fallback : Statement) (branches : List Statement) :
    Spares (SameControl i) (enterBranch host i fallback branches) := by
  have hL := sameControl_lenient (σ := σ) (ι := ι) i
  induction branches with
  | nil => exact .of_succeeds (.modifyScript i _)
  | cons branch rest ih =>
    unfold enterBranch
    split
    · exact ih
    · rename_i head _
      refine .ite (.of_succeeds (.modifyScript i _)) ?_
      refine .bind hL (keeps_evaluateGuard hL i hh head) fun b => ?_
      exact .ite (.of_succeeds (.modifyScript i _)) ih

omit hh

theorem spares_skipBranch (t : Statement) (head : Site) :
    Spares (SameControl i) (skipBranch i t head : ScriptM σ ι Unit) := by
  have hL := sameControl_lenient (σ := σ) (ι := ι) i
  unfold skipBranch
  refine .bind hL (.script hL i) fun s => ?_
  split
  · exact .of_keeps (.fail hL _ _)
  · exact .of_succeeds (.bind (.modifyScript i _) fun _ => .modifyScript i _)

theorem spares_exitLoop (t : Statement) (head : Site) :
    Spares (SameControl i) (exitLoop i t head : ScriptM σ ι Unit) := by
  have hL := sameControl_lenient (σ := σ) (ι := ι) i
  unfold exitLoop
  refine .bind hL (.script hL i) fun s => ?_
  split
  · exact .of_keeps (.fail hL _ _)
  · refine .of_succeeds (.bind (.modifyScript i _) fun _ => ?_)
    exact .bind (.modifyScript i _) fun _ => .modifyScript i _

theorem spares_executeLoopEnd (t : Statement) (head : Site) :
    Spares (SameControl i) (executeLoopEnd i t head : ScriptM σ ι Unit) := by
  have hL := sameControl_lenient (σ := σ) (ι := ι) i
  unfold executeLoopEnd
  refine .bind hL (.script hL i) fun s => ?_
  split
  · exact .of_keeps (.fail hL _ _)
  · exact .of_succeeds (.modifyScript i _)

theorem spares_executeBreak (t : Statement) (head : Site) :
    Spares (SameControl i) (executeBreak i t head : ScriptM σ ι Unit) := by
  have hL := sameControl_lenient (σ := σ) (ι := ι) i
  unfold executeBreak
  refine .bind hL (.script hL i) fun s => ?_
  split
  · refine .of_succeeds (.bind (.modifyScript i _) fun _ => ?_)
    exact .bind (.modifyScript i _) fun _ => .modifyScript i _
  · exact .of_keeps (.fail hL _ _)

theorem spares_executeContinue (t : Statement) (head : Site) :
    Spares (SameControl i) (executeContinue i t head : ScriptM σ ι Unit) := by
  have hL := sameControl_lenient (σ := σ) (ι := ι) i
  unfold executeContinue
  refine .bind hL (.script hL i) fun s => ?_
  split
  · exact .of_keeps (.fail hL _ _)
  · exact .of_succeeds (.bind (.modifyScript i _) fun _ => .modifyScript i _)

/-! ## Headers -/

/-- What a header that counts leaves of the frames when it fails after it has begun. -/
inductive Frames.Begun (t : Statement) (F : Frames) : Frames → Prop
  /-- On the first visit it has opened its frame, with no pass counted. -/
  | opened {G : Frames} : F.top.openedBy t = false → G.top.start = some t →
      (∀ c, G.top.loop = some c → c.index = 0) → G.outer = F.toList → Begun t F G
  /-- When it comes back it has counted one more pass. -/
  | counted {c : Count} {G : Frames} : F.top.openedBy t = true → F.top.loop = some c →
      G.top.start = F.top.start → G.top.loop = some { c with index := c.index + 1 } →
      G.outer = F.outer → Begun t F G

/-- The kind of a statement's first token, if it is a statement and has one. -/
def Statement.headKind? (t : Statement) : Option Kind :=
  if t.site.kind = .statement then t.head?.map Site.kind else none

/-- What a statement that fails leaves of the frames.  The start of a choice has opened its frame,
and so has the header of a guarded loop, unless it came back to it.  Only statements of these kinds
and the headers that count leave anything else than they found. -/
def Statement.Leaves (t : Statement) (F G : Frames) : Prop :=
  match t.headKind? with
  | some .ifStart => G = F.push t
  | some .whileStart => G = if F.top.openedBy t then F else F.push t
  | some .forStart | some .forEachStart => G = F ∨ F.Begun t G
  | _ => G = F

variable {w w' : World σ ι} {t : Statement} {head : Site} {fault : Fault}

/-! ### Headers that ask a guard -/

section

include hh

theorem spares_askIf :
    Spares (SameControl i) (do
      if ← evaluateGuard host i head then advance i
      else
        let s ← script i
        match s.choiceEnd? t with
        | none => fail (some head) .unclosedChoice
        | some fallback =>
          modifyScript i Script.clearTimeout
          enterBranch host i fallback (s.branches t)) := by
  have hL := sameControl_lenient (σ := σ) (ι := ι) i
  refine .bind hL (keeps_evaluateGuard hL i hh head) fun b => ?_
  refine .ite (.of_succeeds (.modifyScript i _)) (.bind hL (.script hL i) fun s => ?_)
  split
  · exact .of_keeps (.fail hL _ _)
  · exact .bind hL (sameControl_clearTimeout i) fun _ => spares_enterBranch hh _ _

theorem spares_askWhile :
    Spares (SameControl i) (do
      if ← evaluateGuard host i head then advance i else exitLoop i t head) := by
  have hL := sameControl_lenient (σ := σ) (ι := ι) i
  refine .bind hL (keeps_evaluateGuard hL i hh head) fun b => ?_
  exact .ite (.of_succeeds (.modifyScript i _)) (spares_exitLoop t head)

/-- The start of a choice leaves its frame. -/
theorem stuck_of_executeIf (hi : i < w.scripts.size)
    (h : executeIf host i t head w = .error fault w') :
    Stuck i ((w.script i).frames.push t) w w' := by
  have hrest := spares_askIf hh (w.modifyScript i (·.pushFrame t)) fault w' h
  unfold SameControl at hrest
  rw [World.script_modifyScript_self _ hi] at hrest
  exact hrest.before fun _ => ⟨rfl, rfl⟩

end

/-- Is the innermost frame the statement's own?  The question changes nothing. -/
theorem standsIn_apply (i : Nat) (t : Statement) (w : World σ ι) :
    standsIn i t w = .ok ((w.script i).frames.top.openedBy t) w := rfl

/-- The header of a guarded loop that comes back only asks its guard. -/
theorem executeWhile_of_own (host : Host σ ι)
    (hown : (w.script i).frames.top.openedBy t = true) :
    executeWhile host i t head w = (do
      if ← evaluateGuard host i head then advance i else exitLoop i t head) w := by
  unfold executeWhile
  rw [bind_of_ok (standsIn_apply i t w), hown]
  rfl

/-- Otherwise it opens its frame first. -/
theorem executeWhile_of_new (host : Host σ ι)
    (hnew : (w.script i).frames.top.openedBy t = false) :
    executeWhile host i t head w = (do
      if ← evaluateGuard host i head then advance i else exitLoop i t head)
        (w.modifyScript i (·.pushFrame t)) := by
  unfold executeWhile
  rw [bind_of_ok (standsIn_apply i t w), hnew]
  rfl

theorem stuck_of_executeWhile (hh : host.Keeps (SameControl i)) (hi : i < w.scripts.size)
    (h : executeWhile host i t head w = .error fault w') :
    Stuck i (if (w.script i).frames.top.openedBy t then (w.script i).frames
      else (w.script i).frames.push t) w w' := by
  cases hown : (w.script i).frames.top.openedBy t with
  | true =>
    rw [executeWhile_of_own host hown] at h
    exact spares_askWhile hh w fault w' h
  | false =>
    rw [executeWhile_of_new host hown] at h
    have hrest := spares_askWhile hh (w.modifyScript i (·.pushFrame t)) fault w' h
    unfold SameControl at hrest
    rw [World.script_modifyScript_self _ hi] at hrest
    exact hrest.before fun _ => ⟨rfl, rfl⟩

/-! ### Headers that count -/

/-- A script stands where it stood, in the same frames but for the variables of the innermost. -/
structure SameCount (i : Nat) (w w' : World σ ι) : Prop where
  /-- The cursor is the same. -/
  cursor : (w'.script i).cursor = (w.script i).cursor
  /-- The points to go back to are the same. -/
  returns : (w'.script i).returns = (w.script i).returns
  /-- The same statement opened the innermost frame. -/
  start : (w'.script i).frames.top.start = (w.script i).frames.top.start
  /-- Its count is the same. -/
  loop : (w'.script i).frames.top.loop = (w.script i).frames.top.loop
  /-- The frames outside are the same. -/
  outer : (w'.script i).frames.outer = (w.script i).frames.outer

theorem SameControl.count {i : Nat} {w w' : World σ ι} (h : SameControl i w w') :
    SameCount i w w' := by
  refine ⟨h.cursor, h.returns, ?_, ?_, ?_⟩
  · rw [h.frames]
  · rw [h.frames]
  · rw [h.frames]

theorem sameCount_lenient (i : Nat) : Lenient (SameCount (σ := σ) (ι := ι) i) where
  trans h h' := ⟨h'.cursor.trans h.cursor, h'.returns.trans h.returns, h'.start.trans h.start,
    h'.loop.trans h.loop, h'.outer.trans h.outer⟩
  idle h := ((sameControl_lenient i).idle h).count

theorem spares_followCount (t : Statement) (head : Site) :
    Spares (SameCount i) (followCount i t head : ScriptM σ ι Unit) := by
  have hL := sameCount_lenient (σ := σ) (ι := ι) i
  have hexit : Spares (SameCount i) (exitLoop i t head : ScriptM σ ι Unit) :=
    fun w fault w' h => (spares_exitLoop t head w fault w' h).count
  unfold followCount
  refine .bind hL (.script hL i) fun s => ?_
  split
  · exact hexit
  · exact .ite (.of_succeeds (.modifyScript i _)) hexit

theorem spares_followElement (t : Statement) (head : Site) (name : String) (list : Site)
    (listName : String) :
    Spares (SameCount i) (followElement i t head name list listName : ScriptM σ ι Unit) := by
  have hL := sameCount_lenient (σ := σ) (ι := ι) i
  unfold followElement
  refine .bind hL (.script hL i) fun s => .bind hL (keeps_listElement hL list listName _) ?_
  intro element
  cases element with
  | some a => exact .of_succeeds (.bind (.modifyScript i _) fun _ => .modifyScript i _)
  | none =>
    have hclear : Keeps (SameCount i)
        (modifyScript i (·.clearVar name) : ScriptM σ ι Unit) := by
      intro v
      show SameCount i v (v.modifyScript i (·.clearVar name))
      have hscript := v.script_modifyScript i i (·.clearVar name)
      by_cases hi : i = i ∧ i < v.scripts.size
      · rw [if_pos hi] at hscript
        constructor <;> rw [hscript] <;> rfl
      · rw [if_neg hi] at hscript
        constructor <;> rw [hscript]
    refine .bind hL hclear fun _ => ?_
    exact fun w fault w' h => (spares_exitLoop t head w fault w' h).count

/-- What fails behind a frame that a header has opened leaves the header begun. -/
theorem begun_of_opened (loop : Option Count) (hi : i < w.scripts.size)
    (hnew : (w.script i).frames.top.openedBy t = false)
    (hloop : ∀ c, loop = some c → c.index = 0)
    (h : SameCount i (w.modifyScript i fun s =>
      { s with frames := ⟨{ start := some t, loop }, s.frames.toList⟩ }) w') :
    ∃ G, Stuck i G w w' ∧ (w.script i).frames.Begun t G := by
  obtain ⟨hcursor, hreturns, hstart, hcount, houter⟩ := h
  refine ⟨_, Stuck.before ⟨hcursor, hreturns, rfl⟩ fun _ => ⟨rfl, rfl⟩, ?_⟩
  rw [World.script_modifyScript_self _ hi] at hstart hcount houter
  exact .opened hnew hstart (fun c hc => hloop c (hcount.symm.trans hc)) houter

/-- What fails behind the counting of a header leaves one more pass counted. -/
theorem begun_of_counted (hi : i < w.scripts.size) {c : Count}
    (hown : (w.script i).frames.top.openedBy t = true)
    (hloop : (w.script i).frames.top.loop = some c)
    (h : SameCount i (w.modifyScript i fun s =>
      { s with frames := s.frames.mapTop fun f =>
        { f with loop := some { c with index := c.index + 1 } } }) w') :
    ∃ G, Stuck i G w w' ∧ (w.script i).frames.Begun t G := by
  obtain ⟨hcursor, hreturns, hstart, hcount, houter⟩ := h
  refine ⟨_, Stuck.before ⟨hcursor, hreturns, rfl⟩ fun _ => ⟨rfl, rfl⟩, ?_⟩
  rw [World.script_modifyScript_self _ hi] at hstart hcount houter
  exact .counted hown hloop hstart hcount houter

/-- A header that comes back counts and goes on. -/
theorem begun_of_countPass (hi : i < w.scripts.size)
    (hown : (w.script i).frames.top.openedBy t = true) {x : ScriptM σ ι Unit}
    (hx : Spares (SameCount i) x) (h : (countPass i >>= fun _ => x) w = .error fault w') :
    ∃ G, Stuck i G w w' ∧ (G = (w.script i).frames ∨ (w.script i).frames.Begun t G) := by
  cases hloop : (w.script i).frames.top.loop with
  | none =>
    rw [bind_of_error (countPass_of_none hloop)] at h
    cases h
    exact ⟨_, ⟨rfl, rfl, rfl⟩, .inl rfl⟩
  | some c =>
    rw [bind_of_ok (countPass_of_some hloop)] at h
    obtain ⟨G, hG, hbegun⟩ := begun_of_counted hi hown hloop (hx _ fault w' h)
    exact ⟨G, hG, .inr hbegun⟩

theorem begun_of_executeFor (hi : i < w.scripts.size)
    (h : executeFor i t head w = .error fault w') :
    ∃ G, Stuck i G w w' ∧ (G = (w.script i).frames ∨ (w.script i).frames.Begun t G) := by
  unfold executeFor at h
  cases hbound : head.firstChild? with
  | none =>
    rw [hbound] at h
    cases h
    exact ⟨_, ⟨rfl, rfl, rfl⟩, .inl rfl⟩
  | some bound =>
    rw [hbound] at h
    simp only at h
    by_cases hkind : bound.kind ≠ .integer
    · rw [if_pos hkind] at h
      cases h
      exact ⟨_, ⟨rfl, rfl, rfl⟩, .inl rfl⟩
    · rw [if_neg hkind, bind_of_ok (standsIn_apply i t w)] at h
      cases hown : (w.script i).frames.top.openedBy t with
      | true =>
        rw [hown] at h
        exact begun_of_countPass hi hown (spares_followCount t head) h
      | false =>
        rw [hown] at h
        -- the frame is opened, then the bound is read, and only then the count begins
        have hpush : pushFrame i t w = .ok () (w.modifyScript i (·.pushFrame t)) := rfl
        simp only [Bool.not_false, if_true] at h
        rw [bind_of_ok hpush, bind_apply, reading_apply] at h
        cases hread : World.asUInt (w.modifyScript i (·.pushFrame t)) ⟨i, bound⟩ with
        | error fault' =>
          rw [hread] at h
          cases h
          obtain ⟨G, hG, hbegun⟩ := begun_of_opened none hi hown (fun _ hc => nomatch hc)
            ((sameCount_lenient i).refl _)
          exact ⟨G, hG, .inr hbegun⟩
        | ok n =>
          rw [hread] at h
          have hstart : startCount i (some n) (w.modifyScript i (·.pushFrame t)) =
              .ok () (w.modifyScript i fun s =>
                { s with
                  frames := ⟨{ start := some t, loop := some { bound := some n } },
                    s.frames.toList⟩ }) := by
            show EStateM.Result.ok () ((w.modifyScript i _).modifyScript i _) = _
            rw [World.modifyScript_modifyScript]
            rfl
          simp only at h
          rw [bind_of_ok hstart] at h
          obtain ⟨G, hG, hbegun⟩ := begun_of_opened _ hi hown
            (fun c hc => by cases hc; rfl) (spares_followCount t head _ fault w' h)
          exact ⟨G, hG, .inr hbegun⟩

/-- The header of a loop over a list fails at once, or it begins or counts and then looks for the
element. -/
theorem executeForEach_cases (i : Nat) (t : Statement) (head : Site) :
    (executeForEach i t head : ScriptM σ ι Unit) = fail (some head) .badForEach ∨
      ∃ name list listName, (executeForEach i t head : ScriptM σ ι Unit) = (do
        if !(← standsIn i t) then
          pushFrame i t
          startCount i none
        else countPass i
        followElement i t head name list listName) := by
  unfold executeForEach
  split
  · exact .inr ⟨_, _, _, rfl⟩
  · exact .inl rfl

theorem begun_of_executeForEach (hi : i < w.scripts.size)
    (h : executeForEach i t head w = .error fault w') :
    ∃ G, Stuck i G w w' ∧ (G = (w.script i).frames ∨ (w.script i).frames.Begun t G) := by
  rcases executeForEach_cases (σ := σ) (ι := ι) i t head with he | ⟨name, list, listName, he⟩
  · rw [he] at h
    cases h
    exact ⟨_, ⟨rfl, rfl, rfl⟩, .inl rfl⟩
  · rw [he, bind_of_ok (standsIn_apply i t w)] at h
    cases hown : (w.script i).frames.top.openedBy t with
    | true =>
      rw [hown] at h
      exact begun_of_countPass hi hown (spares_followElement t head name list listName) h
    | false =>
      rw [hown] at h
      have hpush : (pushFrame i t >>= fun _ => startCount i none : ScriptM σ ι Unit) w =
          .ok () (w.modifyScript i fun s =>
            { s with
              frames := ⟨{ start := some t, loop := some { bound := none } },
                s.frames.toList⟩ }) := by
        show EStateM.Result.ok () ((w.modifyScript i _).modifyScript i _) = _
        rw [World.modifyScript_modifyScript]
        rfl
      simp only [Bool.not_false, if_true] at h
      rw [← bind_assoc, bind_of_ok hpush] at h
      obtain ⟨G, hG, hbegun⟩ := begun_of_opened _ hi hown
        (fun c hc => by cases hc; rfl) (spares_followElement t head name list listName _ fault w' h)
      exact ⟨G, hG, .inr hbegun⟩

/-! ## The statement -/

/-- A statement whose first token is known is run by that token. -/
theorem executeStatement_of_headKind? (host : Host σ ι) {kind : Kind}
    (h : t.headKind? = some kind) :
    ∃ head, head.kind = kind ∧ executeStatement host i t = executeHead host i t head := by
  unfold Statement.headKind? at h
  by_cases hkind : t.site.kind = .statement
  · rw [if_pos hkind, Option.map_eq_some_iff] at h
    obtain ⟨head, hhead, hk⟩ := h
    refine ⟨head, hk, ?_⟩
    unfold executeStatement
    rw [if_neg (not_not_intro hkind), hhead]
  · rw [if_neg hkind] at h
    cases h

/-- A statement without a first token fails and touches nothing. -/
theorem executeStatement_of_headless (host : Host σ ι) (h : t.headKind? = none) (w : World σ ι) :
    ∃ fault, executeStatement host i t w = .error fault w := by
  unfold Statement.headKind? at h
  unfold executeStatement
  by_cases hkind : t.site.kind = .statement
  · rw [if_pos hkind, Option.map_eq_none_iff] at h
    rw [if_neg (not_not_intro hkind), h]
    exact ⟨_, rfl⟩
  · rw [if_pos hkind]
    exact ⟨_, rfl⟩

/-- **A statement that fails leaves its script where it stands**, and of the frames what the
statements of its kind leave. -/
theorem stuck_of_executeStatement (hh : host.Keeps (SameControl i))
    (hc : ∀ t word args quiet force,
      Spares (SameControl i) (host.command t word args quiet force))
    (hi : i < w.scripts.size) (h : executeStatement host i t w = .error fault w') :
    ∃ G, Stuck i G w w' ∧ t.Leaves (w.script i).frames G := by
  unfold Statement.Leaves
  cases hkind : t.headKind? with
  | none =>
    obtain ⟨_, he⟩ := executeStatement_of_headless (i := i) host hkind w
    rw [he] at h
    cases h
    exact ⟨_, ⟨rfl, rfl, rfl⟩, rfl⟩
  | some kind =>
    obtain ⟨head, rfl, he⟩ := executeStatement_of_headKind? (i := i) host hkind
    rw [he] at h
    have looks : ∀ {x : ScriptM σ ι Unit}, Spares (SameControl i) x → x w = .error fault w' →
        ∃ G, Stuck i G w w' ∧ G = (w.script i).frames :=
      fun hx hw => ⟨_, hx w fault w' hw, rfl⟩
    have command : Spares (SameControl i) (do
        if ← executeCommand host i t.site.children then advance i) := by
      refine .bind_succeeds (spares_executeCommand hh hc _) fun b => ?_
      cases b with
      | true => exact .modifyScript i _
      | false => exact .pure _
    unfold executeHead at h
    generalize head.kind = kind at *
    cases kind with
    | ifStart => exact ⟨_, stuck_of_executeIf hh hi h, rfl⟩
    | elseIf | elseStart => exact looks (spares_skipBranch t head) h
    | ifEnd => exact looks (.of_succeeds (.bind (.modifyScript i _) fun _ => .modifyScript i _)) h
    | whileStart => exact ⟨_, stuck_of_executeWhile hh hi h, rfl⟩
    | forStart => exact begun_of_executeFor hi h
    | forEachStart => exact begun_of_executeForEach hi h
    | whileEnd | forEnd => exact looks (spares_executeLoopEnd t head) h
    | breakLoop => exact looks (spares_executeBreak t head) h
    | continueLoop => exact looks (spares_executeContinue t head) h
    | stop | replay => exact looks (.of_succeeds (.modifyScript i _)) h
    | command | quiet | force | negate => exact looks command h
    | _ => exact looks (.of_keeps (.fail (sameControl_lenient i).toTolerant _ _)) h

/-! ## Trying again -/

/-- A second attempt of these statements is not like the first. -/
def Statement.remembers (t : Statement) : Bool :=
  t.headKind?.any fun kind => kind = .ifStart || kind = .forStart || kind = .forEachStart

/-- The header of a guarded loop that finds its own frame does what it does where it opens it. -/
theorem executeWhile_again (host : Host σ ι) {v : World σ ι} (hi : i < v.scripts.size)
    (hnew : (v.script i).frames.top.openedBy t = false) :
    executeWhile host i t head (v.modifyScript i (·.pushFrame t)) =
      executeWhile host i t head v := by
  have hown : ((v.modifyScript i (·.pushFrame t)).script i).frames.top.openedBy t = true := by
    rw [World.script_modifyScript_self _ hi]
    exact Frames.openedBy_push _ t
  rw [executeWhile_of_own host hown, executeWhile_of_new host hnew]

/-- **A second attempt is like the first**, in the frames that the first has left. -/
theorem executeStatement_again (host : Host σ ι) {F G : Frames} (ht : t.remembers = false)
    (hleaves : t.Leaves F G) {v : World σ ι} (hi : i < v.scripts.size)
    (hv : (v.script i).frames = F) :
    executeStatement host i t (v.modifyScript i fun s => { s with frames := G }) =
      executeStatement host i t v := by
  have same : G = F → executeStatement host i t (v.modifyScript i fun s => { s with frames := G }) =
      executeStatement host i t v := by
    intro hG
    rw [World.modifyScript_of_same (f := fun s => { s with frames := G }) (by rw [hG, ← hv])]
  unfold Statement.Leaves at hleaves
  unfold Statement.remembers at ht
  cases hkind : t.headKind? with
  | none =>
    rw [hkind] at hleaves
    exact same hleaves
  | some kind =>
    obtain ⟨head, hhead, he⟩ := executeStatement_of_headKind? (i := i) host hkind
    rw [hkind] at hleaves ht
    cases kind with
    | ifStart | forStart | forEachStart => exact absurd ht (by decide)
    | whileStart =>
      cases hown : F.top.openedBy t with
      | true =>
        simp only [hown, if_true] at hleaves
        exact same hleaves
      | false =>
        simp only [hown, Bool.false_eq_true, if_false] at hleaves
        have hpush : (v.modifyScript i fun s => { s with frames := G }) =
            v.modifyScript i (·.pushFrame t) := by
          refine modifyScript_congr hi ?_
          rw [hleaves, ← hv]
          rfl
        rw [he]
        unfold executeHead
        rw [hhead, hpush]
        exact executeWhile_again host hi (by rw [hv, hown])
    | _ => exact same hleaves

/-- **What a failed attempt leaves behind.**  When the statement under the cursor fails, the cursor
and the points to go back to are as before.

* So are the frames, unless the statement is a header: a choice and a guarded loop have opened their
  frame, a loop that counts has opened its frame or counted a pass.
* Unless it is the start of a choice or the header of a loop that counts, a second attempt does in
  the frames that were left, in any world, exactly what it does in the frames from before. -/
theorem executeNext_leaves (hh : host.Keeps (SameControl i))
    (hc : ∀ t word args quiet force,
      Spares (SameControl i) (host.command t word args quiet force))
    (h : executeNext host i w = .error fault w') :
    ∃ t, (w.script i).cursor = some t ∧ (w'.script i).cursor = some t ∧
      (w'.script i).returns = (w.script i).returns ∧
      t.Leaves (w.script i).frames (w'.script i).frames ∧
      (t.remembers = false → ∀ v : World σ ι, i < v.scripts.size →
        (v.script i).frames = (w.script i).frames →
        executeStatement host i t
          (v.modifyScript i fun s => { s with frames := (w'.script i).frames }) =
            executeStatement host i t v) := by
  cases hcursor : (w.script i).cursor with
  | none =>
    have hnext : executeNext host i w = .ok false w := by
      unfold executeNext
      rw [script_bind, hcursor]
      rfl
    rw [hnext] at h
    cases h
  | some t =>
    rw [executeNext_of_cursor host i hcursor] at h
    have hstatement : executeStatement host i t w = .error fault w' := by
      cases hx : executeStatement host i t w with
      | ok a u =>
        rw [bind_of_ok hx] at h
        cases h
      | error fault' u =>
        rw [bind_of_error hx] at h
        cases h
        rfl
    obtain ⟨G, hstuck, hleaves⟩ :=
      stuck_of_executeStatement hh hc (World.lt_size_of_cursor hcursor) hstatement
    obtain rfl := hstuck.frames
    refine ⟨t, rfl, hstuck.cursor.trans hcursor, hstuck.returns, hleaves, ?_⟩
    intro ht v hi hv
    exact executeStatement_again host ht hleaves hi hv

end

/-- A loop whose guard asks for something that nobody has told yet. -/
def unreadyRoot : Node where
  kind := .script
  children :=
    [{ kind := .statement, line := 1
       children :=
         [{ kind := .whileStart
            children :=
              [{ kind := .unary, children := [{ kind := .operand, lexeme := some "ready" }] }] }] },
      wordLine 2 .whileEnd none]

/-- A world in which the loop begins. -/
def unreadyWorld : World Unit Unit where
  host := ()
  scripts := #[.start "unready" unreadyRoot]

theorem executeNext_leaves_unready :
    quietHost.Keeps (SameControl 0) ∧
      ∃ fault w', executeNext quietHost 0 unreadyWorld = .error fault w' ∧
        (w'.script 0).frames = ({} : Frames).push (lineOf unreadyRoot 0) ∧
        ∀ v : World Unit Unit, 0 < v.scripts.size → (v.script 0).frames = {} →
          executeStatement quietHost 0 (lineOf unreadyRoot 0)
            (v.modifyScript 0 fun s => { s with frames := (w'.script 0).frames }) =
              executeStatement quietHost 0 (lineOf unreadyRoot 0) v := by
  have hL := sameControl_lenient (σ := Unit) (ι := Unit) 0
  have hfails : (executeNext quietHost 0 unreadyWorld matches .error _ _) = true := by
    decide +kernel
  refine ⟨quietHost_keeps hL, ?_⟩
  cases h : executeNext quietHost 0 unreadyWorld with
  | ok b u =>
    rw [h] at hfails
    exact absurd hfails (by simp)
  | error fault w' =>
    obtain ⟨t, ht, -, -, hleaves, hagain⟩ :=
      executeNext_leaves (quietHost_keeps hL) (fun _ _ _ _ _ => .of_keeps (.pure hL _)) h
    obtain rfl : lineOf unreadyRoot 0 = t := Option.some.inj ht
    exact ⟨fault, w', rfl, hleaves, hagain rfl⟩

/-- A loop over a list. -/
def lootRoot : Node where
  kind := .script
  children :=
    [{ kind := .statement, line := 1
       children :=
         [{ kind := .forEachStart
            children :=
              [{ kind := .operand, lexeme := some "item" },
                { kind := .operand, lexeme := some "loot" }] }] },
      wordLine 2 .command "clearjournal", wordLine 3 .forEnd none]

/-- A world in which the loop begins, and there is no list yet. -/
def lootWorld : World Unit Unit where
  host := ()
  scripts := #[.start "loot" lootRoot]
  registry := { commands := Table.empty.insert "clearjournal" (.bundled .clearJournal) }

/-- There is a list of one element. -/
def World.stocked (w : World Unit Unit) : World Unit Unit :=
  { w with lists := w.lists.insert "loot" [default] }

/-- **A loop over a list that is missing remembers that it failed.**  Its frame is there, so when the
list is there and the loop is tried again it looks for the second element, and the body is never
entered; without the failed attempt it is. -/
theorem skips_first_of_loot :
    (executeNext quietHost 0 lootWorld matches .error _ _) = true ∧
      (((executeNext quietHost 0).after lootWorld).script 0).frames.depth = 1 ∧
      (lootWorld.script 0).frames.depth = 0 ∧
      ((ticked lootWorld 1).script 0).currentLine = 1 ∧
      ((ticked (ticked lootWorld 1).stocked 1).script 0).currentLine = 0 ∧
      ((ticked lootWorld.stocked 1).script 0).currentLine = 2 := by
  decide +kernel

end Cadence
