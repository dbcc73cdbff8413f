/-
  RECENT steps in the report of a tick that raised.

  A report looks back over the last ten steps of the log, of whatever scripts, and keeps those of the
  script that it is about.  Because it cuts before it chooses, it is sure to show a script's step only
  as long as fewer than ten have been noted behind it, of whatever scripts.

  1. **The failing step** — if listeners and rules go well and write no log (`Reticent`), then a tick
     whose callback does not fail can raise in one way only: it executes a statement, which fails.  The
     step of this statement is in the log, with its number in the error (`Reticent.failing_step`).
     What is noted behind it is what commands and expressions of the host have noted, as they may
     tick scripts; a host that leaves the log notes nothing there.

  2. **The window** — the steps that a report shows are some of the last ten of the history; they are
     of the script and in order.  A step comes last among them if few were noted behind it, and none
     of its script (`StepLog.Holds.recent_last`).

  3. **The headline** (`Logged.reports`) puts the log, the failing step and the report together.

  The conditions are needed: a callback that raises does so without a step, a listener that moves the
  script has another statement executed than the one that was noted, a command that ticks scripts can
  push the failing step out of what is shown, or put another one behind it, and a script that was
  given another name has no steps yet (`unreported_of_meddling`).
-/
import Cadence.Proofs.Logging.Steps
import Cadence.Proofs.Running.Executing
import Cadence.Proofs.Running.Jumping
import Cadence.Proofs.Running.Raising
import Cadence.World.Traceback

namespace Cadence

open ScriptM

section

variable {σ ι : Type}

/-! ## Reticent hosts -/

/-- The log is the same. -/
def SameLog (w w' : World σ ι) : Prop := w'.log = w.log

theorem sameLog_stepwise : Stepwise (SameLog (σ := σ) (ι := ι)) :=
  ⟨fun _ => rfl, fun h k => k.trans h⟩

theorem sameLog_steers (i : Nat) : Steers (SameLog (σ := σ) (ι := ι)) i where
  trans h k := k.trans h
  slight h := h.log
  place _ _ _ := rfl
  settle _ := rfl

theorem sameLog_tolerant : Tolerant (SameLog (σ := σ) (ι := ι)) := (sameLog_steers 0).toTolerant

theorem sameLog_bundled : Bundled.Keeps (SameLog (σ := σ) (ι := ι)) :=
  .of_scripts sameLog_tolerant fun _ _ _ => rfl

/-- Nothing that is done with a script gives one another name. -/
theorem sameName_roams (i : Nat) : Roams (Same (σ := σ) (ι := ι) Script.name i) := by
  refine .of_roves (same_lenient Script.name (fun _ => rfl) i) fun j f w hf => same_of_tells i j w ?_
  obtain ⟨_, _, _, _, _, hs⟩ := hf
  rw [hs]

theorem sameName_steers (i : Nat) : Steers (Same (σ := σ) (ι := ι) Script.name i) i where
  toTolerant := (sameName_roams i).toTolerant
  place w _ _ := same_of_tells i i w rfl
  settle w := (sameName_roams i).suspend i Script.suspends_clearTimeout w

/-- Listeners and rules go well and leave the log; before a statement listeners leave the script
where it is; and what else the host supplies writes the log by steps. -/
structure Reticent (host : Host σ ι) : Prop extends Host.KeepsThroughout Grows host where
  /-- Listeners go well. -/
  listeners : ∀ t e, Goes SameLog (host.listener t e)
  /-- Before a statement they leave the script where it is. -/
  before : ∀ t i s, Keeps (Same Script.cursor i) (host.listener t (.beforeStatement i s))
  /-- Rules go well. -/
  rules : ∀ t c, Goes SameLog (host.rule t c)

/-- Who goes well and keeps one relation, and keeps another one, keeps both. -/
theorem Goes.and {α : Type} {R S : World σ ι → World σ ι → Prop} {x : ScriptM σ ι α}
    (h : Goes R x) (k : Keeps S x) : Goes (fun w w' => R w w' ∧ S w w') x := by
  intro w
  obtain ⟨a, w', hw', hR⟩ := h w
  exact ⟨a, w', hw', hR, k.ok hw'⟩

variable {host : Host σ ι}

/-- Listeners before a statement leave the log and the place of the script. -/
theorem Reticent.goes_before (hh : Reticent host) (i : Nat) (t : Statement) :
    Goes (fun w w' => SameLog w w' ∧ Same Script.cursor i w w') (emit host (.beforeStatement i t)) :=
  goes_emit ⟨fun w => ⟨sameLog_stepwise.refl w, rfl⟩,
      fun h k => ⟨sameLog_stepwise.trans h.1 k.1, k.2.trans h.2⟩⟩
    fun l => (hh.listeners l _).and (hh.before l i t)

/-! ## The failing step -/

/-- **A tick that raised has noted the step of the statement that failed**, unless the callback
failed.  Behind it there is only what was noted while the statement was executed, which is nothing if
the host leaves the log; and the step has the name of the script if the host leaves that. -/
theorem Reticent.failing_step (hh : Reticent host) {i : Nat} {w w' : World σ ι} {fault : Fault}
    (hasked : ∀ raised v, chance host i w ≠ .error raised v)
    (htick : tick host i w = .error fault w') :
    ∃ (u : World σ ι) (t : Statement) (e : LogEntry) (raised : Fault) (gs : List LogEntry),
      chance host i w = .ok .run u ∧ Executes host i w t ∧
      fault = .script (raised.ofStep t e.index) ∧
      StepLog.Recorded gs (u.log.record e) w'.log ∧ e.index = u.log.next ∧
      e.line = t.line ∧ e.statement = t.site.node.render ∧
      (host.KeepsThroughout SameLog → w'.log = u.log.record e) ∧
      (host.KeepsThroughout (Same Script.name i) → e.script = (w'.script i).name) := by
  -- nobody is to be blamed but the statement
  have no_listener : ∀ {l : Listener ι} {event v raw v'},
      ¬ host.listener l.token event v = .error raw v' := by
    intro l event v raw v' h
    obtain ⟨_, _, hok, -⟩ := hh.listeners l.token event v
    exact nomatch hok.symm.trans h
  have no_rule : ∀ {r : Rule ι} {c v raw v'}, ¬ host.rule r.token c v = .error raw v' := by
    intro r c v raw v' h
    obtain ⟨_, _, hok, -⟩ := hh.rules r.token c v
    exact nomatch hok.symm.trans h
  have no_end : ∀ {v}, ¬ (do finish host i; return false : ScriptM σ ι Bool) v = .error fault w' := by
    intro v h
    obtain ⟨l, _, raw, -, hcall, -⟩ := exists_listener_of_finish (finish_of_ending h)
    exact no_listener hcall
  rw [tick_eq_chance] at htick
  cases hchance : chance host i w with
  | error raised v => exact absurd hchance (hasked raised v)
  | ok c u =>
    rw [bind_of_ok hchance] at htick
    cases c with
    | wait => cases htick
    | abandon => exact absurd htick no_end
    | run =>
      have hstep : step host i u = .error fault w' := htick
      cases hcursor : (u.script i).cursor with
      | none =>
        rw [step_of_none host i hcursor] at hstep
        exact absurd hstep no_end
      | some t =>
        rw [step_of_some host i hcursor] at hstep
        obtain ⟨error, rfl, hblame⟩ := blame_of_stepStatement hstep
        cases hblame with
        | @own e raised x hfails told =>
          obtain ⟨v, v', hbefore, hlog, hnext⟩ := hfails
          obtain ⟨_, _, hgoes, hv, hplace⟩ := hh.goes_before i t u
          cases hbefore.symm.trans hgoes
          have hgrows := (keeps_executeNext (grows_steers i) hh.around.serves grows_bundled
            hh.command).error hnext
          cases hlog
          obtain ⟨_, _, hgoes', hw'⟩ := goes_emit sameLog_stepwise (hh.listeners · _) x
          cases told.symm.trans hgoes'
          obtain ⟨gs, hgs⟩ := hgrows
          have hlogged : u.log = v.log := hv.symm
          refine ⟨u, t, _, raised, gs, rfl, ?_, rfl, ?_, ?_, rfl, rfl, fun hleaves => ?_,
            fun hleaves => ?_⟩
          · exact ⟨u, _, t, _, hchance, hcursor, bind_of_ok hbefore, hplace.trans hcursor⟩
          · rw [hw', hlogged]
            exact hgs
          · rw [hlogged]
            rfl
          · have hsame := (keeps_executeNext (sameLog_steers i) hleaves.around.serves
              sameLog_bundled hleaves.command).error hnext
            rw [hw', hsame, hlogged]
          · have hname := (keeps_executeNext (sameName_steers i) hleaves.around.serves
              (sameName_roams i).bundled hleaves.command).error hnext
            have hends := (keeps_emit (sameName_roams i).toTolerant hleaves.around _).ok told
            exact (hends.trans hname).symm
        | eclipsed _ _ call => exact absurd call no_listener
        | before _ call => exact absurd call no_listener
        | rule _ _ _ _ call => exact absurd call no_rule
        | after _ _ call => exact absurd call no_listener
        | ended _ _ call => exact absurd call no_listener

/-! ## The window of a report -/

namespace StepLog.Holds

variable {m : Nat} {es : List LogEntry} {w : World σ ι}

/-- A report shows those of the last ten steps of the history that are of its script, if the log has
room for ten. -/
theorem recent (h : StepLog.Holds m es w.log) (name : String) :
    w.recent name =
      (es.drop (es.length - min m World.recentSteps)).filter fun e => e.script = name := by
  unfold World.recent
  rw [h.length_entries, h.entries, List.drop_drop]
  congr 2
  omega

/-- A history is in order. -/
theorem sorted (h : StepLog.Holds m es w.log) : es.Pairwise fun e f => e.index < f.index := by
  rw [← List.pairwise_map (f := LogEntry.index) (R := (· < ·)), h.indices]
  exact List.pairwise_lt_range

/-- So is what a report shows of it. -/
theorem sorted_recent (h : StepLog.Holds m es w.log) (name : String) :
    (w.recent name).Pairwise fun e f => e.index < f.index := by
  rw [h.recent]
  exact (h.sorted.sublist (List.drop_sublist _ _)).filter _

theorem length_recent_le (h : StepLog.Holds m es w.log) (name : String) :
    (w.recent name).length ≤ 10 := by
  rw [h.recent]
  refine Nat.le_trans (List.length_filter_le _ _) ?_
  rw [List.length_drop]
  show _ - (_ - min m 10) ≤ 10
  omega

/-- **A step comes last in what a report shows of its script** if fewer steps were noted behind it
than the report looks at and the log has room for, and none of them is of this script. -/
theorem recent_last {gs : List LogEntry} {e : LogEntry}
    (h : StepLog.Holds m (es ++ e :: gs) w.log)
    (hfew : w.log.next ≤ e.index + min m World.recentSteps)
    (hothers : ∀ r ∈ w.log.entries, e.index < r.index → r.script ≠ e.script) :
    ∃ init, w.recent e.script = init ++ [e] := by
  have hlength : (es ++ e :: gs).length = es.length + (gs.length + 1) := by simp
  have hindex : e.index = es.length := by
    have hget := h.index_getElem (k := es.length) (by omega)
    simpa using hget
  rw [h.next, hlength, hindex] at hfew
  -- what was noted behind the step is in the log still, so none of it is of the script
  have hbehind : ∀ g ∈ gs, ¬ g.script = e.script := by
    intro g hg
    refine hothers g ?_ ((List.pairwise_cons.mp (List.pairwise_append.mp h.sorted).2.1).1 g hg)
    rw [h.entries, hlength, List.drop_append_of_le_length (by omega)]
    exact List.mem_append_right _ (List.mem_cons_of_mem e hg)
  have hnone : (gs.filter fun f => f.script = e.script) = [] :=
    List.filter_eq_nil_iff.mpr fun g hg => by simpa using hbehind g hg
  refine ⟨(es.drop (es.length + (gs.length + 1) - min m World.recentSteps)).filter
    fun f => f.script = e.script, ?_⟩
  rw [h.recent, hlength, List.drop_append_of_le_length (by omega), List.filter_append,
    List.filter_cons_of_pos (by simp), hnone]

/-- So does the last step of the history, if the log has room for one. -/
theorem recent_last_of_end {e : LogEntry} (h : StepLog.Holds m (es ++ [e]) w.log) (hm : 1 ≤ m) :
    ∃ init, w.recent e.script = init ++ [e] := by
  have hnext : w.log.next = es.length + 1 := by
    rw [h.next, List.length_append, List.length_singleton]
  have hindex : e.index = es.length := by
    have hget := h.index_getElem (k := es.length) (by simp)
    simpa using hget
  refine h.recent_last ?_ fun r hr hlt => ?_
  · rw [hnext, hindex, World.recentSteps]
    omega
  · -- no step of the history has a higher number
    rw [h.entries] at hr
    have hin : r.index ∈ (es ++ [e]).map LogEntry.index :=
      List.mem_map_of_mem (List.mem_of_mem_drop hr)
    rw [h.indices, List.mem_range, List.length_append, List.length_singleton] at hin
    omega

end StepLog.Holds

/-! ## Reports -/

/-- A report has the number of the error's step and the recent steps of its script. -/
theorem World.exists_tracebackValue (w : World σ ι) (error : ScriptError) (i : Option Nat) :
    ∃ type message location depth,
      w.tracebackValue error i = .object ([("error", .object
        [("type", type), ("message", message),
          ("failing_step_index", (error.step.map fun n => Json.int n).getD .null),
          ("source_location", location)]),
        ("recent_steps", .array ((w.recent (w.reportedName i)).map World.stepJson))] ++ depth) :=
  ⟨_, _, _, _, rfl⟩

/-- **What the log holds after any run, and what a report shows after a tick that raised.**  The log
holds the last steps, as many as it has room for, with consecutive numbers of which the last is one
less than the number of steps; no two steps ever left states of the same name, and the last step of
a name is known even if the log has dropped it.

If the host is reticent, then a tick that raised, but not because its callback failed, has noted the
step of a statement that it executed, and the error has the number of this step.  A report about this
script then shows at most ten steps, all of this script and in order.  Unless the script has got
another name meanwhile, the last one is this step, with the line of the statement, if fewer than ten
steps were noted behind it, which the log has room for, and none of them is of this script.  So it is
whenever the host leaves the log, as this step is the last one then, provided that there is room for
one. -/
theorem Logged.reports {m : Nat} {es : List LogEntry} {w : World σ ι} (h : Logged host m es w) :
    (w.log.next = es.length ∧
      w.log.entries = es.drop (es.length - m) ∧
      w.log.entries.length = min m es.length ∧
      w.log.entries.map LogEntry.index =
        List.range' (es.length - min m es.length) (min m es.length) ∧
      (es.map LogEntry.stateId).Nodup ∧
      ∀ name, w.log.lastOf? name = es.reverse.find? fun e => e.script = name) ∧
    (host.KeepsThroughout Grows → ∀ i, ∃ fs, Logged host m (es ++ fs) ((Cadence.tick host i).after w)) ∧
    (Reticent host → ∀ i fault w', Cadence.tick host i w = .error fault w' →
      (∀ raised v, chance host i w ≠ .error raised v) →
      ∃ t e error fs gs recent,
        -- the failing step
        Executes host i w t ∧ fault = .script error ∧ error.step = some e.index ∧
        e.line = t.line ∧ e.statement = t.site.node.render ∧
        Logged host m (es ++ fs ++ e :: gs) w' ∧
        (host.KeepsThroughout SameLog → fs = [] ∧ gs = []) ∧
        (host.KeepsThroughout (Same Script.name i) → e.script = (w'.script i).name) ∧
        -- the report
        (∃ type message location depth,
          w'.tracebackValue error (some i) = .object ([("error", .object
            [("type", type), ("message", message), ("failing_step_index", .int e.index),
              ("source_location", location)]),
            ("recent_steps", .array (recent.map World.stepJson))] ++ depth)) ∧
        recent.length ≤ 10 ∧ (∀ r ∈ recent, r.script = (w'.script i).name) ∧
        (recent.Pairwise fun r s => r.index < s.index) ∧
        -- its last step
        (e.script = (w'.script i).name →
          (w'.log.next ≤ e.index + min m 10 →
            (∀ r ∈ w'.log.entries, e.index < r.index → r.script ≠ e.script) →
            ∃ init, recent = init ++ [e]) ∧
          (1 ≤ m → host.KeepsThroughout SameLog → ∃ init, recent = init ++ [e]))) := by
  have hw := h.holds
  refine ⟨⟨hw.next, hw.entries, hw.length_entries, hw.indices_entries, hw.nodup_stateIds, hw.last⟩,
    fun hh i => h.exists_tick hh i, fun hh i fault w' htick hasked => ?_⟩
  obtain ⟨u, t, e, raised, gs, hchance, hexecutes, rfl, hgs, hindex, hline, hstatement, hleft,
    hname⟩ := hh.failing_step hasked htick
  have hgrows : Grows w u := (keeps_chance host i grows_tolerant (fun _ => .of_same rfl)
    (fun _ => .of_same rfl) (fun _ => .of_same rfl) (fun _ => .of_same rfl) hh.callback).ok hchance
  obtain ⟨fs, hfs⟩ := hgrows
  have hlogged : Logged host m (es ++ fs ++ e :: gs) w' := by
    have hafter : (Cadence.tick host i).after w = w' := after_of_error htick
    have hsteps : StepLog.Recorded (fs ++ e :: gs) w.log ((Cadence.tick host i).after w).log := by
      rw [hafter, List.append_cons]
      exact (StepLog.Recorded.more hfs hindex).trans hgs
    have hnext := h.tick i hsteps
    rwa [hafter, ← List.append_assoc] at hnext
  have hw' := hlogged.holds
  have hstep := step_ofStep t e.index raised
  have hnone : host.KeepsThroughout SameLog → fs = [] ∧ gs = [] := by
    intro hleaves
    have hu : SameLog w u := (keeps_chance host i sameLog_tolerant (fun _ => rfl) (fun _ => rfl)
      (fun _ => rfl) (fun _ => rfl) hleaves.callback).ok hchance
    exact ⟨hfs.eq_nil hu, hgs.eq_nil (hleft hleaves)⟩
  refine ⟨t, e, _, fs, gs, w'.recent (w'.reportedName (some i)), hexecutes, rfl, hstep, hline,
    hstatement, hlogged, hnone, hname, ?_, hw'.length_recent_le _, ?_, hw'.sorted_recent _,
    fun hscript => ⟨fun hfew hothers => ?_, fun hroom hleaves => ?_⟩⟩
  · obtain ⟨type, message, location, depth, hvalue⟩ := w'.exists_tracebackValue _ (some i)
    rw [hstep] at hvalue
    exact ⟨type, message, location, depth, hvalue⟩
  · intro r hr
    rw [hw'.recent] at hr
    exact of_decide_eq_true (List.mem_filter.mp hr).2
  · have hlast := hw'.recent_last hfew hothers
    rwa [hscript] at hlast
  · -- nothing stands behind the step
    obtain ⟨rfl, rfl⟩ := hnone hleaves
    have hlast := hw'.recent_last_of_end hroom
    rwa [hscript] at hlast

end

/-! ## A narrow log -/

theorem quietHost_reticent : Reticent quietHost where
  toKeepsThroughout := quietHost_keepsThroughout grows_tolerant
  listeners _ _ := .pure sameLog_stepwise _
  before _ _ _ := .pure (same_lenient Script.cursor (fun _ => rfl) _).toTolerant _
  rules _ _ := .pure sameLog_stepwise _

/-- What a tick that raised reports of the first script: the number of the failing step, the line
where the error lies, and the recent steps with their lines. -/
def reportedSteps : EStateM.Result Fault (World Unit Unit) Bool →
    Option (Option Nat × Option Int × List (Nat × Int))
  | .error (.script error) w =>
    some (error.step, (World.failing? error).map Site.line,
      (w.recent (w.reportedName (some 0))).map fun e => (e.index, e.line))
  | _ => none

/-- A world with a log that has room for one step. -/
def narrowWorld : World Unit Unit := { clumsyWorld with log := { capacity := 1 } }

/-- The second statement fails; the first step is gone, and the report shows the second. -/
theorem reports_narrow :
    ∃ es e error init w', Logged quietHost 1 es (ticked narrowWorld 1) ∧
      tick quietHost 0 (ticked narrowWorld 1) = .error (.script error) w' ∧
      Logged quietHost 1 (es ++ [e]) w' ∧ error.step = some e.index ∧
      (∃ type message location depth,
        w'.tracebackValue error (some 0) = .object ([("error", .object
          [("type", type), ("message", message), ("failing_step_index", .int e.index),
            ("source_location", location)]),
          ("recent_steps", .array ((init ++ [e]).map World.stepJson))] ++ depth)) ∧
      reportedSteps (tick quietHost 0 (ticked narrowWorld 1)) = some (some 1, some 2, [(1, 2)]) := by
  have hstart : Logged quietHost 1 [] narrowWorld := .start rfl
  obtain ⟨es, hlogged⟩ := hstart.exists_tick quietHost_reticent.toKeepsThroughout 0
  have hchance := chance_of_running quietHost 0 (w := ticked narrowWorld 1) rfl
  have hreport : reportedSteps (tick quietHost 0 (ticked narrowWorld 1)) =
      some (some 1, some 2, [(1, 2)]) := by
    decide +kernel
  cases htick : tick quietHost 0 (ticked narrowWorld 1) with
  | ok b w' =>
    rw [htick] at hreport
    cases hreport
  | error fault w' =>
    obtain ⟨t, e, error, fs, gs, recent, -, rfl, hstep, -, -, hlast, hnone, hname, hvalue, -, -, -,
        hends⟩ :=
      (Logged.reports hlogged).2.2 quietHost_reticent 0 fault w' htick
        (fun _ _ h => nomatch hchance.symm.trans h)
    have hleaves := quietHost_keepsThroughout sameLog_tolerant
    obtain ⟨rfl, rfl⟩ := hnone hleaves
    obtain ⟨init, rfl⟩ :=
      (hends (hname (quietHost_keepsThroughout (sameName_roams 0).toTolerant))).2 (Nat.le_refl 1)
        hleaves
    rw [List.append_nil] at hlast
    exact ⟨es, e, error, init, w', hlogged, rfl, hlast, hstep, hvalue, htick ▸ hreport⟩

/-! ## What the conditions are needed for -/

/-- A host whose callbacks raise and whose listeners send the active script to line 2.  Its command
`crowd` ticks the second script ten times and raises then, `rename` gives the first one another name
and raises then, and all others tick the first one once and raise then. -/
def meddlingHost : Host Unit Unit :=
  { quietHost with
    callback := fun _ => throw (.at none (.reported "no"))
    listener := fun _ _ => do let _ ← gotoLine 2
    command := fun _ word _ _ _ => do
      if word = "crowd" then
        for _ in List.range 10 do
          let _ ← tick quietHost 1
      else if word = "rename" then
        modifyScript 0 fun s => { s with name := "renamed" }
      else
        let _ ← tick quietHost 0
      throw (.at none (.reported "enough")) }

/-- A world with a script that has waited for too long. -/
def overdueWorld : World Unit Unit where
  host := ()
  scripts :=
    #[{ (Script.start "mumbling" mumblingRoot : Script Unit) with
        activity := .timingOut, deadline := some 0, callback := some (.host ()) }]

/-- A world with a script of two statements, of which something is told before each. -/
def hookedWorld : World Unit Unit :=
  { clumsyWorld with registry := ({} : Registry Unit).listen "before_statement" ⟨0, ()⟩ }

/-- A world with two scripts; the first one is a single command, and the second one starts over and
over. -/
def pairedWorld (word : String) : World Unit Unit where
  host := ()
  scripts := #[.start "calling"
    { kind := .script
      children := [{ kind := .statement, line := 1
                     children := [{ kind := .command, lexeme := some word, line := 1 }] }] },
    .start "spinning" spinningRoot]
  registry := { commands := Table.empty.insert word (.host ()) }

/-- **Reports that do not end with the failing step.**  A callback that raises has no step.  Where a
listener has moved the script, line 1 was noted and line 2 fails.  Where a command has ticked another
script ten times, the failing step is not among the last ten; where it has ticked its own script, that
step comes last; and where it has given its own script another name, the failing step is not one of
a script of this name. -/
theorem unreported_of_meddling :
    reportedSteps (tick meddlingHost 0 overdueWorld) = some (none, none, []) ∧
    reportedSteps (tick meddlingHost 0 hookedWorld) = some (some 0, some 2, [(0, 1)]) ∧
    reportedSteps (tick meddlingHost 0 (pairedWorld "crowd")) = some (some 0, some 1, []) ∧
    reportedSteps (tick meddlingHost 0 (pairedWorld "again")) =
      some (some 0, some 1, [(0, 1), (1, 1)]) ∧
    reportedSteps (tick meddlingHost 0 (pairedWorld "rename")) = some (some 0, some 1, []) := by
  refine ⟨?_, ?_, ?_, ?_, ?_⟩ <;> decide +kernel

end Cadence
