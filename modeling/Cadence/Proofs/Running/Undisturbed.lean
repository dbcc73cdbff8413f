/-
  UNDISTURBED — what stands around a statement leaves it alone.

  Listeners and rules may do what they like with the stores, the log and their own affairs, as long
  as they leave the scripts, the clock and the commands alone (`Host.Unobtrusive`).  Then so does
  everything that stands around a statement, and what a step does to its script is what the
  statement does (`step_executes`).

  For a loop that works on the stores this is too little.  If listeners and rules go well and keep
  any relation that does not look at the log and at the active script (`Host.Surrounds`), then so
  does all that stands around a statement (`tick_of_surrounds`).
-/
import Cadence.Proofs.Meaning.Ticking
import Cadence.Proofs.Stores.Resolving

namespace Cadence

open ScriptM

section

variable {σ ι α β : Type}

/-! ## Worlds that are alike -/

/-- The scripts, the clock and the commands are the same, and the same script is active. -/
structure Undisturbed (w w' : World σ ι) : Prop where
  /-- The scripts are the same. -/
  scripts : w'.scripts = w.scripts
  /-- The clock is the same. -/
  now : w'.now = w.now
  /-- The same script is active. -/
  active : w'.active = w.active
  /-- The commands are the same. -/
  commands : w'.registry.commands = w.registry.commands

theorem Undisturbed.refl (w : World σ ι) : Undisturbed w w := ⟨rfl, rfl, rfl, rfl⟩

theorem Undisturbed.trans {u v w : World σ ι} (h : Undisturbed u v) (h' : Undisturbed v w) :
    Undisturbed u w :=
  ⟨h'.scripts.trans h.scripts, h'.now.trans h.now, h'.active.trans h.active,
    h'.commands.trans h.commands⟩

theorem Undisturbed.script {w w' : World σ ι} (h : Undisturbed w w') (i : Nat) :
    w'.script i = w.script i := by
  rw [World.script, World.script, h.scripts]

/-- The scripts, the clock and the commands are the same; which script is active does not matter. -/
structure Unmoved (w w' : World σ ι) : Prop where
  /-- The scripts are the same. -/
  scripts : w'.scripts = w.scripts
  /-- The clock is the same. -/
  now : w'.now = w.now
  /-- The commands are the same. -/
  commands : w'.registry.commands = w.registry.commands

theorem Undisturbed.unmoved {w w' : World σ ι} (h : Undisturbed w w') : Unmoved w w' :=
  ⟨h.scripts, h.now, h.commands⟩

theorem Unmoved.trans {u v w : World σ ι} (h : Unmoved u v) (h' : Unmoved v w) : Unmoved u w :=
  ⟨h'.scripts.trans h.scripts, h'.now.trans h.now, h'.commands.trans h.commands⟩

theorem Unmoved.script {w w' : World σ ι} (h : Unmoved w w') (i : Nat) :
    w'.script i = w.script i := by
  rw [World.script, World.script, h.scripts]

/-! ## Operations that go well -/

/-- An operation goes well, and leads from each world to one that a relation allows. -/
def Goes (R : World σ ι → World σ ι → Prop) (x : ScriptM σ ι α) : Prop :=
  ∀ w, ∃ a w', x w = .ok a w' ∧ R w w'

section

variable {R : World σ ι → World σ ι → Prop} (hR : Stepwise R) {host : Host σ ι}

theorem Goes.mapFault {x : ScriptM σ ι α} (f : Fault → Fault) (hx : Goes R x) :
    Goes R (ScriptM.mapFault f x) := by
  intro w
  obtain ⟨a, u, hu, hwu⟩ := hx w
  refine ⟨a, u, ?_, hwu⟩
  rw [ScriptM.mapFault, hu]

include hR

namespace Goes

theorem pure (a : α) : Goes R (Pure.pure a : ScriptM σ ι α) := fun w => ⟨a, w, rfl, hR.refl w⟩

theorem get : Goes R (MonadState.get : ScriptM σ ι (World σ ι)) := fun w => ⟨w, w, rfl, hR.refl w⟩

theorem bind {x : ScriptM σ ι α} {f : α → ScriptM σ ι β} (hx : Goes R x) (hf : ∀ a, Goes R (f a)) :
    Goes R (x >>= f) := by
  intro w
  obtain ⟨a, u, hu, hwu⟩ := hx w
  obtain ⟨b, v, hv, huv⟩ := hf a u
  exact ⟨b, v, (bind_of_ok hu).trans hv, hR.trans hwu huv⟩

end Goes

theorem goes_notifyFrom {e : Event} (hl : ∀ t, Goes R (host.listener t e))
    (calls position : Nat) : Goes R (notifyFrom host e calls position) := by
  induction calls generalizing position with
  | zero => exact .pure hR _
  | succ calls ih =>
    unfold notifyFrom
    refine .bind hR (.get hR) fun w => ?_
    split
    · exact .pure hR _
    · exact .bind hR (hl _) fun _ => ih (position + 1)

theorem goes_emit {e : Event} (hl : ∀ t, Goes R (host.listener t e)) : Goes R (emit host e) := by
  unfold emit
  exact .bind hR (.get hR) fun w => .mapFault _ (goes_notifyFrom hR hl _ 0)

theorem goes_applyRulesFrom (hr : ∀ t c, Goes R (host.rule t c)) (c : StepContext)
    (calls position : Nat) : Goes R (applyRulesFrom host c calls position) := by
  induction calls generalizing position with
  | zero => exact .pure hR _
  | succ calls ih =>
    unfold applyRulesFrom
    refine .bind hR (.get hR) fun w => ?_
    split
    · exact .pure hR _
    · rename_i r _
      by_cases hdue : c.index % r.every = 0
      · simp only [hdue, if_true]
        exact .bind hR (hr _ c) fun _ => ih (position + 1)
      · simp only [hdue, if_false]
        exact ih (position + 1)

theorem goes_afterStep (hl : ∀ t e, Goes R (host.listener t e))
    (hr : ∀ t c, Goes R (host.rule t c)) (i : Nat) (t : Statement) (e : LogEntry) :
    Goes R (afterStep host i t e) := by
  unfold afterStep applyRules ScriptM.script
  refine .bind hR (.bind hR (.get hR) fun w => .pure hR _) fun s => .bind hR ?_ fun _ =>
    goes_emit hR fun l => hl l _
  exact .bind hR (.get hR) fun w => .mapFault _ (goes_applyRulesFrom hR hr _ _ 0)

end

/-! ## Listeners and rules -/

/-- An operation goes well and disturbs nothing. -/
def Passes (x : ScriptM σ ι α) : Prop := ∀ w, ∃ a w', x w = .ok a w' ∧ Undisturbed w w'

theorem undisturbed_stepwise : Stepwise (Undisturbed : World σ ι → World σ ι → Prop) :=
  ⟨Undisturbed.refl, Undisturbed.trans⟩

namespace Passes

theorem pure (a : α) : Passes (Pure.pure a : ScriptM σ ι α) := Goes.pure undisturbed_stepwise a

theorem get : Passes (MonadState.get : ScriptM σ ι (World σ ι)) := Goes.get undisturbed_stepwise

theorem bind {x : ScriptM σ ι α} {f : α → ScriptM σ ι β} (hx : Passes x)
    (hf : ∀ a, Passes (f a)) : Passes (x >>= f) :=
  Goes.bind undisturbed_stepwise hx hf

end Passes

/-- Listeners and rules disturb nothing. -/
structure Host.Unobtrusive (host : Host σ ι) : Prop where
  /-- Listeners do not. -/
  listener : ∀ t e, Passes (host.listener t e)
  /-- Rules do not. -/
  rule : ∀ t c, Passes (host.rule t c)

variable {host : Host σ ι}

theorem passes_emit (hh : host.Unobtrusive) (e : Event) : Passes (emit host e) :=
  goes_emit undisturbed_stepwise fun l => hh.listener l e

theorem passes_afterStep (hh : host.Unobtrusive) (i : Nat) (t : Statement) (e : LogEntry) :
    Passes (afterStep host i t e) :=
  goes_afterStep undisturbed_stepwise hh.listener hh.rule i t e

theorem passes_logStep (i : Nat) (t : Statement) : Passes (logStep i t : ScriptM σ ι LogEntry) :=
  fun _ => ⟨_, _, rfl, rfl, rfl, rfl, rfl⟩

/-! ## Statements -/

/-- The end of a script moves nothing. -/
theorem finish_unmoved (hh : host.Unobtrusive) (i : Nat) (w : World σ ι) :
    ∃ w', finish host i w = .ok () w' ∧ Unmoved w w' := by
  have hw : Unmoved w { w with active := none } := ⟨rfl, rfl, rfl⟩
  obtain ⟨_, w', hemit, hw'⟩ := passes_emit hh (.scriptEnd i) { w with active := none }
  exact ⟨w', hemit, hw.trans hw'.unmoved⟩

/-- **What a step does is what its statement does.**  It begins in a world that is like the one
before, its answer says whether the script has a next statement, and if it fails the step fails. -/
theorem step_executes (hh : host.Unobtrusive) {i : Nat} {u : World σ ι} {t : Statement}
    (hcursor : (u.script i).cursor = some t) :
    ∃ v, Undisturbed u v ∧
      (∀ v', executeStatement host i t v = .ok () v' →
        ∃ w', step host i u = .ok (v'.script i).isRunning w' ∧ Unmoved v' w') ∧
      (∀ fault v', executeStatement host i t v = .error fault v' →
        ∃ e w', step host i u = .error e w' ∧ Unmoved v' w') := by
  -- before the statement stand the listeners and the log
  obtain ⟨_, u', hemit, hu'⟩ := passes_emit hh (.beforeStatement i t) u
  obtain ⟨e, v, hlog, hv⟩ := passes_logStep i t u'
  have huv : Undisturbed u v := hu'.trans hv
  have hvcursor : (v.script i).cursor = some t := by rw [huv.script i, hcursor]
  have hnext := executeNext_of_cursor host i hvcursor
  refine ⟨v, huv, fun v' hok => ?_, fun fault v' herror => ?_⟩
  · have hexecute : executeNext host i v = .ok (v'.script i).isRunning v' := by
      rw [hnext, bind_of_ok hok]
      rfl
    -- behind it stand the rules and the listeners, and the end of the script
    obtain ⟨_, w₁, hafter, hw₁⟩ := passes_afterStep hh i t e v'
    rw [step_of_some host i hcursor]
    unfold stepStatement
    rw [bind_of_ok hemit, bind_of_ok hlog, bind_of_ok (attempt_of_ok hexecute)]
    simp only
    rw [bind_of_ok hafter]
    cases (v'.script i).isRunning with
    | true => exact ⟨w₁, rfl, hw₁.unmoved⟩
    | false =>
      obtain ⟨w₂, hfinish, hw₂⟩ := finish_unmoved hh i w₁
      refine ⟨w₂, ?_, hw₁.unmoved.trans hw₂⟩
      show (finish host i >>= fun _ => (return false : ScriptM σ ι Bool)) w₁ = _
      rw [bind_of_ok hfinish]
      rfl
  · have hexecute : executeNext host i v = .error fault v' := by
      rw [hnext, bind_apply, herror]
    obtain ⟨_, w₁, hon, hw₁⟩ := passes_emit hh (.onError i (fault.ofStep t e.index)) v'
    rw [step_of_some host i hcursor]
    unfold stepStatement
    rw [bind_of_ok hemit, bind_of_ok hlog, bind_of_ok (attempt_of_error hexecute)]
    simp only
    rw [bind_of_ok hon]
    exact ⟨_, w₁, rfl, hw₁.unmoved⟩

/-- A tick whose script gets its chance is a step. -/
theorem tick_of_chance (host : Host σ ι) {i : Nat} {w u : World σ ι}
    (hchance : chance host i w = .ok .run u) : tick host i w = step host i u := by
  rw [tick_eq_chance, bind_of_ok hchance]

/-- After a tick its script is as the statement leaves it, whether that fails or not. -/
theorem script_after_tick (hh : host.Unobtrusive) {i : Nat} {w u : World σ ι} {t : Statement}
    (hchance : chance host i w = .ok .run u) (hcursor : (u.script i).cursor = some t) :
    ∃ v, Undisturbed u v ∧
      ((tick host i).after w).script i = ((executeStatement host i t).after v).script i := by
  obtain ⟨v, huv, hok, herror⟩ := step_executes hh hcursor
  refine ⟨v, huv, ?_⟩
  have htick := tick_of_chance host hchance
  cases hx : executeStatement host i t v with
  | ok a v' =>
    obtain ⟨w', hstep, hw'⟩ := hok v' hx
    rw [after_of_ok (htick.trans hstep), after_of_ok hx, hw'.script i]
  | error fault v' =>
    obtain ⟨e, w', hstep, hw'⟩ := herror fault v' hx
    rw [after_of_error (htick.trans hstep), after_of_error hx, hw'.script i]

/-! ## Any surroundings -/

/-- Listeners and rules go well and keep a relation, which does not look at the log and at the
active script. -/
structure Host.Surrounds (R : World σ ι → World σ ι → Prop) (host : Host σ ι) : Prop
    extends Stepwise R where
  /-- Listeners keep it. -/
  listener : ∀ t e, Goes R (host.listener t e)
  /-- Rules keep it. -/
  rule : ∀ t c, Goes R (host.rule t c)
  /-- The log may be written. -/
  logged : ∀ w log, R w { w with log }
  /-- Any script may be active. -/
  activated : ∀ w active, R w { w with active }

/-- The end of a script goes well, and keeps it. -/
theorem goes_finish {R : World σ ι → World σ ι → Prop} (hR : host.Surrounds R) (i : Nat) :
    Goes R (finish host i) := by
  intro w
  obtain ⟨a, w', hemit, hw'⟩ :=
    goes_emit hR.toStepwise (hR.listener · (.scriptEnd i)) { w with active := none }
  exact ⟨a, w', hemit, hR.trans (hR.activated w none) hw'⟩

/-- **What is around a statement keeps what its surroundings keep.**  If the statement goes well
from each world that the surroundings lead to, so does the tick, and what then holds still holds. -/
theorem tick_of_surrounds {R : World σ ι → World σ ι → Prop} (hR : host.Surrounds R) {i : Nat}
    {w : World σ ι} {t : Statement} {b : Bool} {Q : World σ ι → Prop}
    (hQ : ∀ {v v'}, Q v → R v v' → Q v') (hrunning : (w.script i).activity = .running)
    (hcursor : (w.script i).cursor = some t)
    (hx : ∀ u, R w u → (u.script i).cursor = some t ∧
      ∃ v, executeStatement host i t u = .ok () v ∧ (v.script i).isRunning = b ∧ Q v) :
    ∃ w', tick host i w = .ok b w' ∧ Q w' := by
  have hstep := hR.toStepwise
  let begun : World σ ι := { w with active := some i }
  have hbegun : (begun.script i).cursor = some t := hcursor
  obtain ⟨_, u, hemit, hu⟩ := goes_emit hstep (hR.listener · (.beforeStatement i t)) begun
  obtain ⟨e, v, hlog, hv⟩ : ∃ e v, logStep i t u = .ok e v ∧ R u v :=
    ⟨_, _, rfl, hR.logged u _⟩
  have hwv : R w v := hstep.trans (hR.activated w (some i)) (hstep.trans hu hv)
  obtain ⟨hvcursor, v', hok, hb, hq⟩ := hx v hwv
  have hnext : executeNext host i v = .ok b v' := by
    rw [executeNext_of_cursor host i hvcursor, bind_of_ok hok, ← hb]
    rfl
  obtain ⟨_, w₁, hafter, hw₁⟩ := goes_afterStep hstep hR.listener hR.rule i t e v'
  have hstepped : stepStatement host i t begun = (do
      if !b then finish host i
      return b : ScriptM σ ι Bool) w₁ := by
    unfold stepStatement
    rw [bind_of_ok hemit, bind_of_ok hlog, bind_of_ok (attempt_of_ok hnext)]
    exact bind_of_ok hafter
  rw [tick_of_running hrunning, step_of_some host i hbegun, hstepped]
  cases b with
  | true => exact ⟨w₁, rfl, hQ hq hw₁⟩
  | false =>
    -- the script is finished, and that is told as well
    obtain ⟨_, w₂, hfinish, hw₂⟩ := goes_finish hR i w₁
    refine ⟨w₂, ?_, hQ (hQ hq hw₁) hw₂⟩
    show (finish host i >>= fun _ => (return false : ScriptM σ ι Bool)) w₁ = _
    rw [bind_of_ok hfinish]
    rfl

end

end Cadence
