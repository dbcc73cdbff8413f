/-
  A TRIP through a well-nested script — frames and enclosing constructs are the same.

  An OUTING starts with a fresh script and goes on with ticks that do not fail (`Outing`).  Between
  the ticks anything may happen that leaves the script still.  The outing remembers whether the script
  has just come BACK to a loop header, from the end of the loop or from a continue.  Which outing it
  is depends on where commands may lead: on a TRIP they do not jump (`Trip`).

  1. **Chances** — a tick first decides whether the script gets its chance at all (`chance`): it may
     be told to rest, or be abandoned, and before that a wait may end with its callback.  Then the
     statement under the cursor is run.

  2. **The invariant** — the script stands (`Stood`).  A statement keeps it
     (`stood_of_executeHead`), so does the chance before it (`ends_chance`), and so does a tick; so
     the script stands at every point of an outing whose commands land where the same constructs
     enclose (`Outing.stood`).

  3. **The result** — `Trip.frames_enclosing`: the frames are exactly those of the constructs that
     enclose the cursor, no construct has two, and there are never more than the nesting is deep.
-/
import Cadence.Proofs.Running.Statements

namespace Cadence

open ScriptM

section

variable {σ ι : Type} (host : Host σ ι) (i : Nat)

/-! ## Chances -/

/-- What becomes of a tick. -/
inductive Chance where
  /-- The script rests. -/
  | wait
  /-- The script is abandoned. -/
  | abandon
  /-- The statement under the cursor is run. -/
  | run
deriving DecidableEq

/-- The part of a tick before the statement. -/
def chance : ScriptM σ ι Chance := do
  modify fun w => { w with active := some i }
  match (← script i).activity with
  | .running => return .run
  | .paused =>
    if (← get).now < (← deadlineOf i) then return .wait
    else
      modifyScript i Script.unpause
      return .run
  | .timingOut =>
    if (← deadlineOf i) ≤ (← get).now then
      let callback := (← script i).callback
      modifyScript i fun s => { s with callback := none }
      match callback with
      | none => pure ()
      | some c => if ← ask host c then advance i
      if (← script i).activity = .running then return .run else return .abandon
    else return .run

/-- A tick is its chance, and what follows from it. -/
theorem tick_eq_chance : tick host i = (do
    match ← chance host i with
    | .wait => return true
    | .abandon => do
      finish host i
      return false
    | .run => step host i) := by
  -- a tick runs the statement inside of its cases, and here it is run behind them
  unfold tick chance
  simp only [bind_assoc]
  refine bind_congr fun _ => bind_congr fun s => ?_
  cases s.activity with
  | running => rfl
  | paused =>
    simp only [bind_assoc]
    refine bind_congr fun w => bind_congr fun d => ?_
    split
    · rw [pure_bind]
    · rw [bind_assoc]
      rfl
  | timingOut =>
    simp only [bind_assoc]
    refine bind_congr fun d => bind_congr fun w => ?_
    split
    · unfold expire
      simp only [bind_assoc]
      refine bind_congr fun s => bind_congr fun _ => ?_
      have decide_ : (do
          if (← script i).activity = .running then step host i
          else
            finish host i
            return false : ScriptM σ ι Bool) = (do
          match ← (do
            if (← script i).activity = .running then return .run else return .abandon :
              ScriptM σ ι Chance) with
          | .wait => return true
          | .abandon => do
            finish host i
            return false
          | .run => step host i) := by
        simp only [bind_assoc]
        refine bind_congr fun s => ?_
        split
        · rw [pure_bind]
        · rw [pure_bind]
      cases s.callback with
      | none => exact decide_
      | some c =>
        simp only [bind_assoc]
        refine bind_congr fun b => ?_
        cases b with
        | true =>
          show (advance i >>= fun _ => _) = ((advance i >>= fun _ => _) >>= _)
          rw [bind_assoc]
          exact bind_congr fun _ => decide_
        | false => exact decide_
    · rw [pure_bind]

/-- A chance keeps a relation that allows the script to become active, to wake up, to go on, and its
callback to be asked. -/
theorem keeps_chance {R : World σ ι → World σ ι → Prop} (hL : Tolerant R)
    (hbegun : ∀ w, R w { w with active := some i })
    (hu : ∀ w, R w (w.modifyScript i Script.unpause))
    (hn : ∀ w, R w (w.modifyScript i fun s => { s with callback := none }))
    (ha : ∀ w, R w (w.modifyScript i Script.advance))
    (hk : ∀ t, Keeps R (host.callback t)) : Keeps R (chance host i) := by
  have decide_ : Keeps R (do
      if (← script i).activity = .running then return .run else return .abandon :
      ScriptM σ ι Chance) :=
    .bind hL (.script hL i) fun s => .ite (.pure hL _) (.pure hL _)
  unfold chance
  refine .bind hL (.modify hbegun) fun _ => .bind hL (.script hL i) fun s => ?_
  cases s.activity with
  | running => exact .pure hL _
  | paused =>
    refine .bind hL (.get hL) fun w => .bind hL (keeps_deadlineOf hL i) fun d => ?_
    exact .ite (.pure hL _) (.bind hL (.modify hu) fun _ => .pure hL _)
  | timingOut =>
    refine .bind hL (keeps_deadlineOf hL i) fun d => .bind hL (.get hL) fun w => .ite ?_ (.pure hL _)
    refine .bind hL (.script hL i) fun s => .bind hL (.modify hn) fun _ => ?_
    cases s.callback with
    | none => exact decide_
    | some c =>
      have asked : Keeps R (ask host c) := by
        cases c with
        | giveUp => exact .pure hL _
        | host t => exact .bind hL (hk t) fun _ => .pure hL _
      exact .bind hL asked fun b => .ite (.bind hL (.modify ha) fun _ => decide_) decide_

/-- **A tick keeps a relation** that its chance and its statement keep. -/
theorem keeps_tick_of_next {R : World σ ι → World σ ι → Prop} (hL : Tolerant R)
    (hlogged : ∀ t, Keeps R (logStep i t : ScriptM σ ι LogEntry))
    (hfinished : ∀ w, R w { w with active := none })
    (hh : host.Keeps R) (hchance : Keeps R (chance host i)) (hnext : Keeps R (executeNext host i)) :
    Keeps R (tick host i) := by
  rw [tick_eq_chance]
  refine .bind hL hchance fun b => ?_
  cases b with
  | wait => exact .pure hL _
  | abandon => exact .bind hL (keeps_finish hL hfinished hh i) fun _ => .pure hL _
  | run => exact keeps_step_of_next hL hlogged hfinished hh hnext

/-- So a tick keeps a relation that allows the script to be moved, if its chance does. -/
theorem keeps_tick_of_chance {R : World σ ι → World σ ι → Prop} (hR : Conducts R i)
    (hh : host.Keeps R) (hb : Bundled.Keeps R)
    (hc : ∀ t word args quiet force, Keeps R (host.command t word args quiet force))
    (hchance : Keeps R (chance host i)) : Keeps R (tick host i) :=
  keeps_tick_of_next host i hR.toTolerant (keeps_logStep hR.logged i) hR.finished hh hchance
    (keeps_executeNext hR.toSteers hh hb hc)

/-- A running script gets its chance at once. -/
theorem chance_of_running {w : World σ ι} (h : (w.script i).activity = .running) :
    chance host i w = .ok .run { w with active := some i } := by
  have hm : (modify fun w => { w with active := some i } : ScriptM σ ι Unit) w =
      .ok () { w with active := some i } := rfl
  have hs : (script i : ScriptM σ ι (Script ι)) { w with active := some i } =
      .ok (w.script i) { w with active := some i } := rfl
  unfold chance
  rw [bind_apply, hm]
  dsimp only
  rw [bind_apply, hs]
  dsimp only
  rw [h]
  rfl

/-- A step runs the statement under the cursor. -/
theorem step_of_some {w : World σ ι} {t : Statement} (h : (w.script i).cursor = some t) :
    step host i w = stepStatement host i t w := by
  unfold step
  rw [script_bind, h]

/-- A step without a statement ends the script. -/
theorem step_of_none {w : World σ ι} (h : (w.script i).cursor = none) :
    step host i w = (do
      finish host i
      return false) w := by
  unfold step
  rw [script_bind, h]

/-- Running the statement under the cursor, and asking whether there is another. -/
theorem executeNext_of_cursor {w : World σ ι} {t : Statement} (h : (w.script i).cursor = some t) :
    executeNext host i w = (do
      executeStatement host i t
      return (← script i).isRunning) w := by
  unfold executeNext
  rw [script_bind, h]

/-- Where no statement is under the cursor, nothing is run, and there is no next one. -/
theorem executeNext_of_none {w : World σ ι} (h : (w.script i).cursor = none) :
    executeNext host i w = .ok false w := by
  unfold executeNext
  rw [script_bind, h]
  rfl

/-- When a command is run, the script lands as commands may. -/
def Orderly (u : World σ ι) : Prop :=
  ∀ t, (u.script i).cursor = some t → t.isCommand = true →
    ∀ e v, (do
      emit host (.beforeStatement i t)
      logStep i t) u = .ok e v →
    ∀ b v', executeCommand host i t.site.children v = .ok b v' → Landing i b v v'

/-- When a command is run, the script lands where the same constructs enclose. -/
def Level (u : World σ ι) : Prop :=
  ∀ t, (u.script i).cursor = some t → t.isCommand = true →
    ∀ e v, (do
      emit host (.beforeStatement i t)
      logStep i t) u = .ok e v →
    ∀ b v', executeCommand host i t.site.children v = .ok b v' → LevelLanding i b v v'

/-- Outings of a script that starts at the beginning of a well-nested tree, on which a condition holds
wherever a statement is run.  The mark says that the last statement that was run leads back to a loop
header. -/
inductive Outing (allowed : World σ ι → Prop) : Bool → World σ ι → Prop where
  /-- A fresh script. -/
  | start {w name root} : i < w.scripts.size → w.script i = .start name root →
      WellNested (root.children.map Script.headKind) → Outing allowed false w
  /-- Anything that leaves the script still. -/
  | meanwhile {back w w'} : Outing allowed back w → Still i w w' → Outing allowed back w'
  /-- A tick that runs no statement. -/
  | idle {back w c u b w'} : Outing allowed back w → chance host i w = .ok c u → c ≠ .run →
      tick host i w = .ok b w' → Outing allowed back w'
  /-- A tick that runs the statement under the cursor. -/
  | tick {back w u b w'} : Outing allowed back w → chance host i w = .ok .run u → allowed u →
      tick host i w = .ok b w' →
      Outing allowed ((u.script i).cursor.any Statement.returns) w'

/-- On a trip the script lands as commands may. -/
abbrev Trip : Bool → World σ ι → Prop := Outing host i (Orderly host i)

end

section

variable {σ ι : Type} {host : Host σ ι} {i : Nat} {T : Tree} {back : Bool}

/-! ## One statement -/

theorem Stood.still {w w' : World σ ι} (h : Stood T back (w.script i)) (hs : Still i w w') :
    Stood T back (w'.script i) := by
  obtain ⟨k, c, waits, hk, hf, hc, hb, hwait⟩ := h
  exact ⟨k, c, waits, hk, hf.still hs, hc, hb, hwait⟩

theorem ends_stood_still {α : Type} {x : ScriptM σ ι α} (hx : Keeps (Still i) x) :
    Ends (With i (Stood T back)) x fun _ => With i (Stood T back) :=
  .keeps hx fun _ _ hs hw => ⟨hs.size hw.1, hw.2.still hs⟩

variable (hw : WellNested T.kinds) (hq : host.Keeps (Still i))
include hw hq

/-- **Every statement that goes well leaves its script standing**, back on a header after the end of
a loop and after a continue. -/
theorem stood_of_executeHead {v w' : World σ ι} {a : Unit} {k : Nat} {t : Statement} {head : Site}
    {waits : Bool} (ht : T.statement? k = some t) (hh : t.head? = some head)
    (hv : With i (StoodAt T back k (some t) waits) v)
    (hkeep : Keeps (SameChain i) (executeCommand host i t.site.children))
    (hland : t.isCommand = true → ∀ b v', executeCommand host i t.site.children v = .ok b v' →
      LevelLanding i b v v')
    (h : executeHead host i t head v = .ok a w') :
    With i (Stood T t.returns) w' := by
  obtain ⟨hsize, hv⟩ := hv
  have hk := Tree.holds_of_head? ht hh
  have hcmd := Statement.isCommand_of_head? hh
  have fresh : head.kind.isLoopStart = false → T.headers back k = enclosing T.kinds k :=
    fun hn => hv.headers_eq ((hk _).trans hn)
  -- at a loop header the header's own frame may be among the frames, elsewhere it is not
  have header : t.isCommand = false → With i (Framed T (T.headers back k) (some t) false) v :=
    fun hc => ⟨hsize, hv.calm hc⟩
  have plain : head.kind.isLoopStart = false → t.isCommand = false →
      With i (Framed T (enclosing T.kinds k) (some t) false) v :=
    fun hn hc => fresh hn ▸ header hc
  have command : head.kind.isLoopStart = false → t.isCommand = true →
      (do if ← executeCommand host i t.site.children then advance i) v = .ok a w' →
      With i (Stood T false) w' :=
    fun hn hc => stood_of_command hc ⟨hsize, fresh hn ▸ hv.framed⟩ ht hkeep (hland hc)
  unfold executeHead at h
  rw [Statement.returns_of_head? hh]
  generalize head.kind = kind at *
  cases kind with
  | ifStart => exact ends_executeIf hw ht hq (hk _) v a w' (plain rfl hcmd) h
  | elseIf => exact ends_skipBranch hw ht v a w' (plain rfl hcmd) h
  | elseStart => exact ends_skipBranch hw ht v a w' (plain rfl hcmd) h
  | ifEnd => exact ends_ifEnd hw ht (hk _) v a w' (plain rfl hcmd) h
  | whileStart => exact ends_executeWhile hw ht (hk _) hq v a w' (header hcmd) h
  | forStart => exact ends_executeFor hw ht (hk _) v a w' (header hcmd) h
  | forEachStart => exact ends_executeForEach hw ht (hk _) v a w' (header hcmd) h
  | whileEnd => exact ends_executeLoopEnd hw ht v a w' (plain rfl hcmd) h
  | forEnd => exact ends_executeLoopEnd hw ht v a w' (plain rfl hcmd) h
  | breakLoop => exact ends_executeBreak hw ht v a w' (plain rfl hcmd) h
  | continueLoop => exact ends_executeContinue hw ht v a w' (plain rfl hcmd) h
  | stop => exact ends_stop hv.le v a w' (plain rfl hcmd) h
  | replay => exact ends_executeReplay ht v a w' (plain rfl hcmd) h
  | command | quiet | force | negate => exact command rfl hcmd h
  | _ => exact absurd h nofun

end

/-! ## One tick -/

section

variable {σ ι : Type} {host : Host σ ι} {i : Nat} {T : Tree} {back : Bool}

/-- A statement that goes well has a first token, which says what it is. -/
theorem executeStatement_ok {v w' : World σ ι} {a : Unit} {t : Statement}
    (h : executeStatement host i t v = .ok a w') :
    ∃ head, t.head? = some head ∧ executeHead host i t head v = .ok a w' := by
  generalize hx : executeStatement host i t = x at h
  unfold executeStatement at hx
  split at hx
  · subst hx
    cases h
  · split at hx
    · subst hx
      cases h
    · rename_i head hh
      subst hx
      exact ⟨head, hh, h⟩

/-- A step that goes well runs the statement under the cursor, and what stands around that leaves
the script still. -/
theorem step_ok (hq : host.Keeps (Still i)) {u w' : World σ ι} {b : Bool} {t : Statement}
    (hcur : (u.script i).cursor = some t) (h : step host i u = .ok b w') :
    ∃ e v r v', (do
      emit host (.beforeStatement i t)
      logStep i t) u = .ok e v ∧ Still i u v ∧ executeNext host i v = .ok r v' ∧
      Still i v' w' := by
  have hL := still_lenient (σ := σ) (ι := ι) i
  rw [step_of_some host i hcur] at h
  unfold stepStatement at h
  obtain ⟨_, u₁, hemit, h⟩ := bind_ok h
  obtain ⟨e, v, hlog, h⟩ := bind_ok h
  obtain ⟨r, v', hnext, h⟩ := bind_ok h
  have hbefore : (do
      emit host (.beforeStatement i t)
      logStep i t) u = .ok e v := by
    show (emit host (.beforeStatement i t) >>= fun _ => logStep i t) u = _
    rw [bind_apply, hemit]
    exact hlog
  have hv : Still i u v :=
    hL.trans ((keeps_emit hL hq _).ok hemit) ((keeps_logStep hL.logged i t).ok hlog)
  cases r with
  | error fault =>
    -- a statement that fails is reported, and then the step fails too
    obtain ⟨_, _, _, h⟩ := bind_ok h
    cases h
  | ok alive =>
    obtain ⟨_, u₂, hafter, h⟩ := bind_ok h
    have hu₂ := (keeps_afterStep hL hq i t e).ok hafter
    refine ⟨e, v, alive, v', hbefore, hv, attempt_ok hnext, ?_⟩
    cases alive with
    | true =>
      cases h
      exact hu₂
    | false =>
      obtain ⟨_, u₃, hfin, h⟩ := bind_ok h
      cases h
      exact hL.trans hu₂ ((keeps_finish hL (hL.activated none) hq i).ok hfin)

/-- Who lands outside of all constructs lands where the same enclose. -/
theorem Orderly.level (hq : host.Keeps (Still i)) {u : World σ ι} (h : Orderly host i u) :
    Level host i u := by
  have hL := still_lenient (σ := σ) (ι := ι) i
  intro t hcur hcmd e v hbefore b v' hrun
  obtain ⟨_, u₁, hemit, hlog⟩ := bind_ok hbefore
  have hv : Still i u v :=
    hL.trans ((keeps_emit hL hq _).ok hemit) ((keeps_logStep hL.logged i t).ok hlog)
  exact (h t hcur hcmd e v hbefore b v' hrun).level (hv.cursor.trans hcur)

variable (hw : WellNested T.kinds) (hq : host.Keeps (Still i))
  (hc : ∀ t word args quiet force, Keeps (SameChain i) (host.command t word args quiet force))
include hw hq hc

theorem stood_of_executeNext {v w' : World σ ι} {b : Bool} {t : Statement}
    (hv : With i (Stood T back) v) (hcur : (v.script i).cursor = some t)
    (hland : t.isCommand = true → ∀ b v', executeCommand host i t.site.children v = .ok b v' →
      LevelLanding i b v v')
    (h : executeNext host i v = .ok b w') : With i (Stood T t.returns) w' := by
  rw [executeNext_of_cursor host i hcur] at h
  obtain ⟨a, u, hrun, hrest⟩ := bind_ok h
  cases hrest
  obtain ⟨hsize, k, c, waits, hst⟩ := hv
  have hct : c = some t := hst.framed.cursor.symm.trans hcur
  subst hct
  have ht : T.statement? k = some t := by
    rcases hst.cursor with hn | hk
    · exact absurd hn (by simp)
    · exact hk.symm
  have hkeep : Keeps (SameChain i) (executeCommand host i t.site.children) :=
    keeps_executeCommand (sameChain_lenient i).toTolerant
      (hq.mono fun _ _ h => h.toSamePlace.toSameChain) (sameChain_roams i).bundled hc i _
  obtain ⟨head, hh, hrun⟩ := executeStatement_ok hrun
  exact stood_of_executeHead hw hq ht hh ⟨hsize, hst⟩ hkeep hland hrun

/-- **A step that goes well leaves its script standing.** -/
theorem stood_of_step {u w' : World σ ι} {b : Bool} (hu : With i (Stood T back) u)
    (ho : Level host i u) (h : step host i u = .ok b w') :
    With i (Stood T ((u.script i).cursor.any Statement.returns)) w' := by
  cases hcur : (u.script i).cursor with
  | none =>
    rw [step_of_none host i hcur] at h
    obtain ⟨a, v, hrun, hrest⟩ := bind_ok h
    cases hrest
    have hS := still_lenient (σ := σ) (ι := ι) i
    have hf := ends_stood_still (keeps_finish hS (hS.activated none) hq i) u a _ hu hrun
    have hback : back = false := by
      obtain ⟨-, k, c, waits, hst⟩ := hu
      cases back with
      | false => rfl
      | true => exact absurd (hst.framed.cursor.symm.trans hcur) (hst.back rfl).2
    rw [hback] at hf
    exact hf
  | some t =>
    obtain ⟨e, v, r, v', hbefore, hv, hnext, hv'⟩ := step_ok hq hcur h
    have hs := stood_of_executeNext hw hq hc ⟨hv.size hu.1, hu.2.still hv⟩ (hv.cursor.trans hcur)
      (fun hcmd => ho t hcur hcmd e v hbefore) hnext
    exact ⟨hv'.size hs.1, hs.2.still hv'⟩

end

section

variable {σ ι : Type} {host : Host σ ι} {i : Nat} {T : Tree} {back : Bool}
  (hk : ∀ t, Keeps (SamePlace i) (host.callback t))

/-- A rest that ends leaves the script where it stands. -/
theorem ends_chance_paused :
    Ends (With i (Stood T back)) (do
      if (← get).now < (← deadlineOf i) then return .wait
      else
        modifyScript i Script.unpause
        return .run : ScriptM σ ι Chance) fun _ => With i (Stood T back) := by
  have hL := still_lenient (σ := σ) (ι := ι) i
  refine .bind (ends_stood_still (.get hL)) fun w => ?_
  refine .bind (ends_stood_still (keeps_deadlineOf hL i)) fun d => ?_
  refine .ite (fun _ => .pure fun _ h => h) fun _ => ?_
  refine .bind (.modifyScript fun s h => ?_) fun _ => .pure fun _ h => h
  obtain ⟨k, c, waits, hst⟩ := h
  exact ⟨k, c, waits, hst.le, hst.framed.unpause, hst.cursor, hst.back, hst.wait⟩

/-- A command that was waiting is left behind when its callback says so. -/
theorem ends_chance_answered {k : Nat} {t : Statement} (ht : T.statement? k = some t)
    (hc : t.isCommand = true) (b : Bool) :
    Ends (With i (Framed T (enclosing T.kinds k) (some t) true)) (do
      if b then advance i
      if (← script i).activity = .running then return .run else return .abandon :
      ScriptM σ ι Chance) fun _ => With i (Stood T false) := by
  have decide_ : Ends (With i (Stood T false)) (do
      if (← script i).activity = .running then return .run else return .abandon :
      ScriptM σ ι Chance) fun _ => With i (Stood T false) :=
    .script fun s _ => .ite (fun _ => .pure fun _ h => h) fun _ => .pure fun _ h => h
  obtain ⟨hopen, hclose, -⟩ := not_holds_of_command ht hc
  -- a command closes nothing, so behind it the same constructs enclose
  refine .ite (fun _ => .bind ?_ fun _ => decide_) fun _ =>
    .mono decide_ (fun w h => ⟨h.1, .command ht hc h.2⟩) fun _ _ h => h
  rw [← ht]
  exact ends_advance_stood (Tree.lt_of_statement? ht)
    (WellNested.enclosing_succ_of_neither hopen hclose)

include hk

/-- **What comes before the statement leaves the script standing.**  A wait that ends may lead on to
the next statement; but only commands wait, so it never leads past a header or an end. -/
theorem ends_chance :
    Ends (With i (Stood T back)) (chance host i) fun _ => With i (Stood T back) := by
  have hL := still_lenient (σ := σ) (ι := ι) i
  have hP := samePlace_lenient (σ := σ) (ι := ι) i
  unfold chance
  refine .bind (ends_stood_still (.modify fun w => hL.idle ⟨rfl, rfl, rfl, rfl, fun _ => rfl⟩))
    fun _ => .script_self fun s hs => ?_
  cases ha : s.activity with
  | running => exact .pure fun w hw => ⟨hw.1, hw.2 ▸ hs⟩
  | paused => exact .mono ends_chance_paused (fun w hw => ⟨hw.1, hw.2 ▸ hs⟩) fun _ _ h => h
  | timingOut =>
    obtain ⟨hback, k, t, ht, hc, hf⟩ := hs.waiting ha
    subst hback
    refine .mono (P := With i (Framed T (enclosing T.kinds k) (some t) true)) ?_
      (fun w hw => ⟨hw.1, hw.2 ▸ hf⟩) fun _ _ h => h
    refine .bind (.still (keeps_deadlineOf hL i)) fun d => .bind (.still (.get hL)) fun w => ?_
    refine .ite (fun _ => .script fun s' _ => ?_) fun _ => .pure fun w h =>
      ⟨h.1, .command ht hc h.2⟩
    refine .bind (.modifyScript fun s h => h.consume) fun _ => ?_
    cases s'.callback with
    | none => exact ends_chance_answered ht hc false
    | some c =>
      have asked : Keeps (SamePlace i) (ask host c) := by
        cases c with
        | giveUp => exact .pure hP _
        | host u => exact .bind hP (hk u) fun v => .pure hP _
      refine .bind (.keeps asked fun w w' hs hw => ?_) (ends_chance_answered ht hc)
      exact ⟨hs.size hw.1, hw.2.samePlace hs⟩

end

/-! ## The whole trip -/

/-- How deep the constructs of a list are nested. -/
def nestingDepth (ks : List (Option Kind)) : Nat :=
  ((List.range (ks.length + 1)).map fun k => (enclosing ks k).length).foldr max 0

theorem length_enclosing_le {ks : List (Option Kind)} {k : Nat} (hk : k ≤ ks.length) :
    (enclosing ks k).length ≤ nestingDepth ks := by
  have le_max : ∀ (l : List Nat) (n : Nat), n ∈ l → n ≤ l.foldr max 0 := by
    intro l
    induction l with
    | nil => exact fun n hn => absurd hn List.not_mem_nil
    | cons m l ih =>
      intro n hn
      rw [List.foldr_cons]
      rcases List.mem_cons.mp hn with rfl | hn
      · exact Nat.le_max_left _ _
      · exact Nat.le_trans (ih n hn) (Nat.le_max_right _ _)
  refine le_max _ _ (List.mem_map.mpr ⟨k, List.mem_range.mpr ?_, rfl⟩)
  omega

/-- The statements that opened the frames, but for the outermost, which stays outside: outermost
first. -/
def Script.openers {ι : Type} (s : Script ι) : List (Option Statement) :=
  (s.frames.toList.dropLast.map Frame.start).reverse

/-- A statement under the cursor of a script, at a position, and the frames that are there.  The mark
says that the script came to the statement from the end of a loop or from a continue. -/
structure Enclosed {ι : Type} (s : Script ι) (back : Bool) (t : Statement) (k : Nat) : Prop where
  /-- The position is one of the tree. -/
  lt : k < s.tree.kinds.length
  /-- The statement stands at the position. -/
  statement : s.tree.statement? k = some t
  /-- The openers of the frames are, outermost first, the headers of the constructs that enclose the
  statement, and after them the statement itself if the script came back to it. -/
  openers : s.openers =
    ((enclosing s.tree.kinds k).reverse ++ if back then [k] else []).map s.tree.statement?
  /-- A script comes back to loop headers only. -/
  header : back = true → holds Kind.isLoopStart s.tree.kinds k = true
  /-- A loop header has its own frame on top exactly when the script came back to it. -/
  own : holds Kind.isLoopStart s.tree.kinds k = true →
    (s.frames.top.openedBy t = true ↔ back = true)
  /-- No construct has two frames. -/
  nodup : ((enclosing s.tree.kinds k).reverse ++ if back then [k] else []).Nodup

/-! ### What standing means for the frames -/

namespace StoodAt

variable {ι : Type} {T : Tree} {back waits : Bool} {k : Nat} {c : Option Statement} {s : Script ι}

/-- The frames are those of the constructs that enclose some position: behind the header, if the
script is back on it. -/
theorem exists_headers_eq (h : StoodAt T back k c waits s) :
    ∃ n ≤ T.kinds.length, T.headers back k = enclosing T.kinds n := by
  cases back with
  | false => exact ⟨k, h.le, rfl⟩
  | true =>
    obtain ⟨kind, hkind, hl⟩ := holds_iff.mp (h.back rfl).1
    have hopen : holds Family.blocks.opens T.kinds k = true :=
      holds_iff.mpr ⟨kind, hkind, Family.loops_part.opens kind hl⟩
    exact ⟨k + 1, lt_length_of_holds hopen, (WellNested.enclosing_succ_of_opens hopen).symm⟩

theorem lt_of_mem_headers (h : StoodAt T back k c waits s) :
    ∀ m ∈ T.headers back k, m < T.kinds.length := by
  intro m hm
  obtain ⟨n, -, hn⟩ := h.exists_headers_eq
  exact lt_of_mem_enclosing (hn ▸ hm)

/-- No construct has two frames: the positions descend on the stack. -/
theorem nodup_headers (h : StoodAt T back k c waits s) : (T.headers back k).reverse.Nodup := by
  obtain ⟨n, -, hn⟩ := h.exists_headers_eq
  rw [hn]
  exact List.pairwise_reverse.mpr
    ((Family.openAt_descending Family.blocks T.kinds n).imp fun h => Nat.ne_of_lt h)

theorem length_frames (h : StoodAt T back k c waits s) :
    s.frames.toList.length = (T.headers back k).length + 1 := by
  have := congrArg List.length h.framed.starts
  unfold Frames.starts at this
  rw [List.length_map, List.length_append, List.length_map] at this
  exact this

theorem openers (h : StoodAt T back k c waits s) :
    s.openers = (T.headers back k).reverse.map T.statement? := by
  unfold Script.openers
  rw [List.map_reverse, List.map_dropLast]
  show (s.frames.starts.dropLast).reverse = _
  rw [h.framed.starts, List.dropLast_concat]

/-- A header has its own frame on top only when the script came back to it. -/
theorem own {t : Statement} (h : StoodAt T back k (some t) waits s)
    (ht : T.statement? k = some t) : s.frames.top.openedBy t = true ↔ back = true := by
  rw [h.framed.openedBy h.lt_of_mem_headers ht]
  unfold Tree.headers
  cases back with
  | true => simp
  | false =>
    -- no position encloses itself
    have : (enclosing T.kinds k).head? ≠ some k := fun hh =>
      absurd (Family.mem_openAt (List.mem_of_head? hh)).1 (Nat.lt_irrefl k)
    simp [this]

/-- Whoever stands on a statement is enclosed as the frames say. -/
theorem enclosed {t : Statement} (h : StoodAt T back k (some t) waits s)
    (ht : T.statement? k = some t) : Enclosed s back t k := by
  have hrev : (enclosing T.kinds k).reverse ++ (if back then [k] else []) =
      (T.headers back k).reverse := by
    cases back with
    | true => exact (List.reverse_cons ..).symm
    | false => exact List.append_nil _
  have hT : s.tree = T := h.framed.tree
  constructor
  all_goals rw [hT]
  · exact Tree.lt_of_statement? ht
  · exact ht
  · rw [hrev]
    exact h.openers
  · exact fun hb => (h.back hb).1
  · exact fun _ => h.own ht
  · rw [hrev]
    exact h.nodup_headers

end StoodAt

/-! ### The result -/

section

variable {σ ι : Type} {host : Host σ ι} {i : Nat} {T : Tree} {back : Bool}
  (hq : host.Keeps (Still i))
  (hc : ∀ t word args quiet force, Keeps (SameChain i) (host.command t word args quiet force))
  (hk : ∀ t, Keeps (SamePlace i) (host.callback t))
include hq hc hk

omit hc in
/-- A tick that runs no statement leaves its script where it stands. -/
theorem stood_of_idle {w u w' : World σ ι} {c : Chance} {b : Bool} (hw : With i (Stood T back) w)
    (hchance : chance host i w = .ok c u) (hne : c ≠ .run) (htick : tick host i w = .ok b w') :
    With i (Stood T back) w' := by
  have hu := ends_chance hk w c u hw hchance
  rw [tick_eq_chance, bind_of_ok hchance] at htick
  cases c with
  | wait =>
    cases htick
    exact hu
  | abandon =>
    obtain ⟨a, v, hfin, hrest⟩ := bind_ok htick
    cases hrest
    have hS := still_lenient (σ := σ) (ι := ι) i
    exact ends_stood_still (keeps_finish hS (hS.activated none) hq i) u a _ hu hfin
  | run => exact absurd rfl hne

/-- **A tick that runs a statement leaves its script standing**, if a command lands where the same
constructs enclose. -/
theorem stood_of_tick (hn : WellNested T.kinds) {w u w' : World σ ι} {b : Bool}
    (hw : With i (Stood T back) w) (hchance : chance host i w = .ok .run u) (ho : Level host i u)
    (htick : tick host i w = .ok b w') :
    With i (Stood T ((u.script i).cursor.any Statement.returns)) w' := by
  have hu := ends_chance hk w _ u hw hchance
  rw [tick_eq_chance, bind_of_ok hchance] at htick
  exact stood_of_step hn hq hc hu ho htick

omit hq hc hk in
/-- A fresh script stands at the beginning of its tree. -/
theorem stood_of_start {w : World σ ι} {name : String} {root : Node} (hi : i < w.scripts.size)
    (hs : w.script i = .start name root) : With i (Stood ⟨root, 0⟩ false) w := by
  refine ⟨hi, ?_⟩
  rw [hs]
  exact .at (Nat.zero_le _) ⟨rfl, rfl, rfl, rfl, rfl, fun h => absurd h (by simp [Script.start,
    Script.loadTree])⟩

/-- **At every point of an outing the script stands**, if its commands land where the same constructs
enclose. -/
theorem Outing.stood {allowed : World σ ι → Prop} (hlevel : ∀ u, allowed u → Level host i u)
    {back : Bool} {w : World σ ι} (h : Outing host i allowed back w) :
    ∃ T : Tree, WellNested T.kinds ∧ With i (Stood T back) w := by
  induction h with
  | @start w name root hi hs hn => exact ⟨⟨root, 0⟩, hn, stood_of_start hi hs⟩
  | meanwhile _ hs ih =>
    obtain ⟨T, hn, hw⟩ := ih
    exact ⟨T, hn, hs.size hw.1, hw.2.still hs⟩
  | idle _ hchance hne htick ih =>
    obtain ⟨T, hn, hw⟩ := ih
    exact ⟨T, hn, stood_of_idle hq hk hw hchance hne htick⟩
  | tick _ hchance ho htick ih =>
    obtain ⟨T, hn, hw⟩ := ih
    exact ⟨T, hn, stood_of_tick hq hc hk hn hw hchance (hlevel _ ho) htick⟩

/-- **Frames and enclosing constructs are the same.**  At every point of a trip through a
well-nested script, a statement under the cursor is enclosed by the constructs whose frames are
there; and with the outermost frame there is at most one frame more than the nesting is deep. -/
theorem Trip.frames_enclosing {back : Bool} {w : World σ ι} (h : Trip host i back w) :
    (∀ t, (w.script i).cursor = some t → ∃ k, Enclosed (w.script i) back t k) ∧
    (w.script i).frames.toList.length ≤ nestingDepth (w.script i).tree.kinds + 1 := by
  obtain ⟨T, hn, -, k, c, waits, hst⟩ := h.stood hq hc hk fun _ ho => ho.level hq
  constructor
  · intro t hcur
    obtain rfl : c = some t := hst.framed.cursor.symm.trans hcur
    rcases hst.cursor with hnone | ht
    · exact absurd hnone (by simp)
    · exact ⟨k, hst.enclosed ht.symm⟩
  · obtain ⟨n, hle, hheaders⟩ := hst.exists_headers_eq
    rw [hst.length_frames, hheaders, hst.framed.tree]
    exact Nat.succ_le_succ (length_enclosing_le hle)

end

/-- A host that does nothing. -/
def idleHost : Host Unit Empty where
  command := Empty.elim
  expression := Empty.elim
  computedAlias := Empty.elim
  listener := Empty.elim
  rule := Empty.elim
  callback := Empty.elim
  write _ := return

/-- A loop of two passes with nothing inside. -/
def loopRoot : Node where
  kind := .script
  children :=
    [{ kind := .statement
       children := [{ kind := .forStart, children := [{ kind := .integer, lexeme := some "2" }] }] },
     { kind := .statement, children := [{ kind := .forEnd }] }]

/-- The loop after a number of ticks. -/
def loopWorld : Nat → World Unit Empty
  | 0 => { host := (), scripts := #[.start "loop" loopRoot] }
  | n + 1 => (tick idleHost 0).after (loopWorld n)

/-- A tick of a running script that goes well, at a statement that is no command. -/
theorem trip_loop {back : Bool} {n : Nat} (h : Trip idleHost 0 back (loopWorld n))
    (hr : ((loopWorld n).script 0).activity = .running)
    (hc : ((loopWorld n).script 0).cursor.any Statement.isCommand = false)
    (hk : (match tick idleHost 0 (loopWorld n) with
      | .ok _ _ => true
      | .error _ _ => false) = true) :
    Trip idleHost 0 (((loopWorld n).script 0).cursor.any Statement.returns)
      (loopWorld (n + 1)) := by
  have hchance := chance_of_running idleHost 0 hr
  cases ht : tick idleHost 0 (loopWorld n) with
  | error fault w =>
    rw [ht] at hk
    exact absurd hk (by simp)
  | ok b w =>
    have hw : loopWorld (n + 1) = w := after_of_ok ht
    rw [hw]
    show Trip idleHost 0 ((World.script { loopWorld n with active := some 0 } 0).cursor.any
      Statement.returns) w
    refine Outing.tick h hchance (fun t hcur hcmd => ?_) ht
    have hcur : ((loopWorld n).script 0).cursor = some t := hcur
    rw [hcur, Option.any_some, hcmd] at hc
    exact absurd hc (by simp)

/-- After the header and the end of the loop the script is back on the header, in its frame. -/
theorem frames_enclosing_loop :
    Trip idleHost 0 true (loopWorld 2) ∧
    (∀ t, ((loopWorld 2).script 0).cursor = some t →
      ∃ k, Enclosed ((loopWorld 2).script 0) true t k) ∧
    ((loopWorld 2).script 0).frames.toList.length ≤
      nestingDepth ((loopWorld 2).script 0).tree.kinds + 1 := by
  have h₀ : Trip idleHost 0 false (loopWorld 0) :=
    @Outing.start _ _ idleHost 0 _ _ "loop" loopRoot (by decide) rfl (by decide)
  have h₁ := trip_loop h₀ rfl rfl (by decide +kernel)
  have h₂ := trip_loop h₁ (by decide +kernel) (by decide +kernel) (by decide +kernel)
  have hb : ((loopWorld 1).script 0).cursor.any Statement.returns = true := by decide +kernel
  rw [hb] at h₂
  exact ⟨h₂, Trip.frames_enclosing
    ⟨nofun, nofun, nofun, nofun, fun _ w => (still_lenient 0).refl w⟩ nofun nofun h₂⟩

end Cadence
