/-
  RAISING — whose fault it is that leaves a tick.

  A tick that comes to a statement tells the listeners before it, notes its step, runs it, and then
  either tells the listeners of errors or calls the rules and tells the listeners after it.  The
  statement may fail, and so may each of the calls around it.

  1. **Calls** — where the listeners of an event fail, one of them has failed in the world that is
     left (`exists_listener_of_emit`), and so with the rules (`exists_rule_of_applyRules`).  What
     such a call reports goes through as it is if it is a script error; a trouble is wrapped
     (`Event.reported`, `ruleReported`).
  2. **The statement's own error** — it is that of the statement with what was missing filled in:
     a site, and always the number of the step (`Fault.ofStep`).
  3. **Blame** — all ways in which the step of a statement fails, one constructor for each: the
     statement's own error is the one that arrives, unless a listener of that error fails as well;
     and every other error is that of a listener or a rule.
  4. **The headline** (`blame_of_tick`) — every failing tick is to be blamed in one of these ways.

  The statement's own error has a site and a step.  That of a listener or a rule has what the call
  has given it, and a wrapped trouble has no step, so not every error that leaves a tick can be
  traced to its step (`untraced_of_clumsy`).
-/
import Cadence.Proofs.Running.Failing

namespace Cadence

open ScriptM

section

variable {σ ι : Type}

/-! ## What calls report -/

/-- The script error that a listener of an event reports. -/
def Event.reported (event : Event) : Fault → ScriptError
  | .script error => error
  | .trouble why => { site := none, cause := .listenerFailed event.name why }

/-- The script error that a rule reports after a statement. -/
def ruleReported (t : Statement) : Fault → ScriptError
  | .script error => error
  | .trouble why => { site := some t.site, cause := .ruleFailed why }

variable {host : Host σ ι}

theorem mapFault_of_error {α : Type} {f : Fault → Fault} {x : ScriptM σ ι α} {w w' : World σ ι}
    {fault : Fault} (h : mapFault f x w = .error fault w') :
    ∃ raw, x w = .error raw w' ∧ fault = f raw := by
  unfold mapFault at h
  cases hx : x w with
  | ok a u =>
    rw [hx] at h
    cases h
  | error raw u =>
    rw [hx] at h
    cases h
    exact ⟨raw, rfl, rfl⟩

/-- Where the listeners of an event fail, one that is registered has failed. -/
theorem exists_listener_of_notifyFrom {event : Event} {calls position : Nat} {w w' : World σ ι}
    {fault : Fault} (h : notifyFrom host event calls position w = .error fault w') :
    ∃ l v, l ∈ v.registry.listenersOf event.name ∧ host.listener l.token event v = .error fault w' := by
  induction calls generalizing position w with
  | zero => cases h
  | succ calls ih =>
    unfold notifyFrom at h
    rw [get_bind] at h
    cases hl : (w.registry.listenersOf event.name)[position]? with
    | none =>
      rw [hl] at h
      cases h
    | some l =>
      rw [hl] at h
      cases hcall : host.listener l.token event w with
      | error raw u =>
        have hfail : raw = fault ∧ u = w' := by
          simpa only [bind_of_error hcall, EStateM.Result.error.injEq] using h
        obtain ⟨rfl, rfl⟩ := hfail
        exact ⟨l, w, List.mem_of_getElem? hl, hcall⟩
      | ok _ u =>
        have hrest : notifyFrom host event calls (position + 1) u = .error fault w' := by
          simpa only [bind_of_ok hcall] using h
        exact ih hrest

/-- The fault of an event is that of one of its listeners. -/
theorem exists_listener_of_emit {event : Event} {w w' : World σ ι} {fault : Fault}
    (h : emit host event w = .error fault w') :
    ∃ l v raw, l ∈ v.registry.listenersOf event.name ∧
      host.listener l.token event v = .error raw w' ∧ fault = .script (event.reported raw) := by
  unfold emit at h
  rw [get_bind] at h
  obtain ⟨raw, hraw, hfault⟩ := mapFault_of_error h
  obtain ⟨l, v, hl, hcall⟩ := exists_listener_of_notifyFrom hraw
  refine ⟨l, v, raw, hl, hcall, ?_⟩
  rw [hfault]
  cases raw with
  | script error => rfl
  | trouble why => rfl

theorem exists_rule_of_applyRulesFrom {c : StepContext} {calls position : Nat} {w w' : World σ ι}
    {fault : Fault} (h : applyRulesFrom host c calls position w = .error fault w') :
    ∃ r v, r ∈ v.registry.rules ∧ c.index % r.every = 0 ∧
      host.rule r.token c v = .error fault w' := by
  induction calls generalizing position w with
  | zero => cases h
  | succ calls ih =>
    unfold applyRulesFrom at h
    rw [get_bind] at h
    cases hr : w.registry.rules[position]? with
    | none =>
      rw [hr] at h
      cases h
    | some r =>
      rw [hr] at h
      by_cases hdue : c.index % r.every = 0
      · cases hcall : host.rule r.token c w with
        | error raw u =>
          have hfail : raw = fault ∧ u = w' := by
            simpa only [hdue, if_true, bind_of_error hcall, EStateM.Result.error.injEq] using h
          obtain ⟨rfl, rfl⟩ := hfail
          exact ⟨r, w, List.mem_of_getElem? hr, hdue, hcall⟩
        | ok _ u =>
          have hrest : applyRulesFrom host c calls (position + 1) u = .error fault w' := by
            simpa only [hdue, if_true, bind_of_ok hcall] using h
          exact ih hrest
      · have hrest : applyRulesFrom host c calls (position + 1) w = .error fault w' := by
          simpa only [hdue, if_false, pure_bind] using h
        exact ih hrest

/-- The fault of the rules is that of one of them that is due. -/
theorem exists_rule_of_applyRules {t : Statement} {c : StepContext} {w w' : World σ ι}
    {fault : Fault} (h : applyRules host t c w = .error fault w') :
    ∃ r v raw, r ∈ v.registry.rules ∧ c.index % r.every = 0 ∧
      host.rule r.token c v = .error raw w' ∧ fault = .script (ruleReported t raw) := by
  unfold applyRules at h
  rw [get_bind] at h
  obtain ⟨raw, hraw, hfault⟩ := mapFault_of_error h
  obtain ⟨r, v, hr, hdue, hcall⟩ := exists_rule_of_applyRulesFrom hraw
  refine ⟨r, v, raw, hr, hdue, hcall, ?_⟩
  rw [hfault]
  cases raw with
  | script error => rfl
  | trouble why => rfl

/-! ## The statement's own error -/

/-- A statement comes to be run, its step is noted as `e`, and `fault` stops it in the world `x`. -/
def Fails (host : Host σ ι) (i : Nat) (t : Statement) (u : World σ ι) (e : LogEntry) (fault : Fault)
    (x : World σ ι) : Prop :=
  ∃ v v', emit host (.beforeStatement i t) u = .ok () v ∧ logStep i t v = .ok e v' ∧
    executeNext host i v' = .error fault x

/-- A statement comes to be run, its step is noted as `e`, and it is run; the script goes on or
not. -/
def Runs (host : Host σ ι) (i : Nat) (t : Statement) (u : World σ ι) (e : LogEntry) (alive : Bool)
    (x : World σ ι) : Prop :=
  ∃ v v', emit host (.beforeStatement i t) u = .ok () v ∧ logStep i t v = .ok e v' ∧
    executeNext host i v' = .ok alive x

/-- The error of a statement has a site. -/
theorem isSome_site_ofStep (t : Statement) (step : Nat) (fault : Fault) :
    (fault.ofStep t step).site.isSome = true := by
  cases fault with
  | trouble why => rfl
  | script error =>
    show (error.site <|> some t.site).isSome = true
    cases error.site with
    | none => rfl
    | some site => rfl

/-- The error of a statement has the number of its step. -/
theorem step_ofStep (t : Statement) (step : Nat) (fault : Fault) :
    (fault.ofStep t step).step = some step := by
  cases fault with
  | trouble why => rfl
  | script error => rfl

/-- A script error keeps its cause, and its site if it has one. -/
theorem ofStep_of_script {t : Statement} {step : Nat} {error : ScriptError} :
    ((Fault.script error).ofStep t step).cause = error.cause ∧
      ∀ s, error.site = some s → ((Fault.script error).ofStep t step).site = some s := by
  refine ⟨rfl, ?_⟩
  intro s hs
  show (error.site <|> some t.site) = some s
  rw [hs]
  rfl

/-! ## Blame -/

/-- **Why the step of a statement fails** in the world `w'`, and the script error that leaves it. -/
inductive Blame (host : Host σ ι) (i : Nat) (t : Statement) (u w' : World σ ι) :
    ScriptError → Prop where
  /-- The statement fails, and the listeners are told. -/
  | own {e : LogEntry} {fault : Fault} {x : World σ ι} (fails : Fails host i t u e fault x)
      (told : emit host (.onError i (fault.ofStep t e.index)) x = .ok () w') :
    Blame host i t u w' (fault.ofStep t e.index)
  /-- The statement fails, and so does a listener that is told of it. -/
  | eclipsed {e : LogEntry} {fault raw : Fault} {x v : World σ ι} {l : Listener ι}
      (fails : Fails host i t u e fault x) (registered : l ∈ v.registry.listenersOf "on_error")
      (call : host.listener l.token (.onError i (fault.ofStep t e.index)) v = .error raw w') :
    Blame host i t u w' ((Event.onError i (fault.ofStep t e.index)).reported raw)
  /-- A listener fails before the step is noted. -/
  | before {raw : Fault} {v : World σ ι} {l : Listener ι}
      (registered : l ∈ v.registry.listenersOf "before_statement")
      (call : host.listener l.token (.beforeStatement i t) v = .error raw w') :
    Blame host i t u w' ((Event.beforeStatement i t).reported raw)
  /-- A rule fails that is due after the statement. -/
  | rule {e : LogEntry} {alive : Bool} {c : StepContext} {raw : Fault} {x v : World σ ι} {r : Rule ι}
      (runs : Runs host i t u e alive x) (step : c.index = e.index) (due : c.index % r.every = 0)
      (registered : r ∈ v.registry.rules) (call : host.rule r.token c v = .error raw w') :
    Blame host i t u w' (ruleReported t raw)
  /-- A listener fails after the statement. -/
  | after {e : LogEntry} {alive : Bool} {raw : Fault} {x v : World σ ι} {l : Listener ι}
      (runs : Runs host i t u e alive x)
      (registered : l ∈ v.registry.listenersOf "after_statement")
      (call : host.listener l.token (.afterStatement i t) v = .error raw w') :
    Blame host i t u w' ((Event.afterStatement i t).reported raw)
  /-- A listener fails at the end of the script. -/
  | ended {e : LogEntry} {raw : Fault} {x v : World σ ι} {l : Listener ι}
      (runs : Runs host i t u e false x) (registered : l ∈ v.registry.listenersOf "script_end")
      (call : host.listener l.token (.scriptEnd i) v = .error raw w') :
    Blame host i t u w' ((Event.scriptEnd i).reported raw)

variable {i : Nat} {t : Statement} {u w w' : World σ ι} {fault : Fault}

/-- The end of a script fails by one of its listeners. -/
theorem exists_listener_of_finish (h : finish host i w = .error fault w') :
    ∃ l v raw, l ∈ v.registry.listenersOf "script_end" ∧
      host.listener l.token (.scriptEnd i) v = .error raw w' ∧
      fault = .script ((Event.scriptEnd i).reported raw) := by
  have hemit : emit host (.scriptEnd i) { w with active := none } = .error fault w' := h
  exact exists_listener_of_emit hemit

/-- What follows a statement that was run fails by a rule, by a listener after it or by one at the
end of the script. -/
theorem blame_of_runs {e : LogEntry} {alive : Bool} {x : World σ ι}
    (hruns : Runs host i t u e alive x)
    (h : (do
      afterStep host i t e
      if !alive then finish host i
      return alive : ScriptM σ ι Bool) x = .error fault w') :
    ∃ error, fault = .script error ∧ Blame host i t u w' error := by
  -- what the rules are told, as the step has it
  let c : StepContext :=
    { index := e.index, script := (x.script i).name, line := t.line
      keyword := t.head?.bind Site.lexeme }
  have hafter : afterStep host i t e x = (applyRules host t c >>= fun _ =>
      emit host (.afterStatement i t)) x := rfl
  cases hrules : applyRules host t c x with
  | error raw y =>
    rw [bind_of_error (hafter.trans (bind_of_error hrules))] at h
    cases h
    obtain ⟨r, v, raw, hr, hdue, hcall, rfl⟩ := exists_rule_of_applyRules hrules
    exact ⟨_, rfl, .rule hruns rfl hdue hr hcall⟩
  | ok _ y =>
    have hrest : afterStep host i t e x = emit host (.afterStatement i t) y :=
      hafter.trans (bind_of_ok hrules)
    cases htold : emit host (.afterStatement i t) y with
    | error raw z =>
      rw [bind_of_error (hrest.trans htold)] at h
      cases h
      obtain ⟨l, v, raw, hl, hcall, rfl⟩ := exists_listener_of_emit htold
      exact ⟨_, rfl, .after hruns hl hcall⟩
    | ok _ z =>
      rw [bind_of_ok (hrest.trans htold)] at h
      cases alive with
      | true => cases h
      | false =>
        -- the script has come to its end, and only its listeners are left
        have hfinish : finish host i z = .error fault w' := by
          cases hend : finish host i z with
          | ok _ y' =>
            have hok := (bind_of_ok (f := fun _ => return false) hend).symm.trans h
            cases hok
          | error raw y' =>
            have herror := (bind_of_error (f := fun _ => return false) hend).symm.trans h
            cases herror
            rfl
        obtain ⟨l, v, raw, hl, hcall, rfl⟩ := exists_listener_of_finish hfinish
        exact ⟨_, rfl, .ended hruns hl hcall⟩

/-- **The step of a statement fails in one of these ways.** -/
theorem blame_of_stepStatement (h : stepStatement host i t u = .error fault w') :
    ∃ error, fault = .script error ∧ Blame host i t u w' error := by
  unfold stepStatement at h
  cases hbefore : emit host (.beforeStatement i t) u with
  | error raw v =>
    rw [bind_of_error hbefore] at h
    cases h
    obtain ⟨l, v', raw, hl, hcall, rfl⟩ := exists_listener_of_emit hbefore
    exact ⟨_, rfl, .before hl hcall⟩
  | ok _ v =>
    rw [bind_of_ok hbefore] at h
    obtain ⟨e, v', hlog⟩ : ∃ e v', logStep i t v = .ok e v' := ⟨_, _, rfl⟩
    rw [bind_of_ok hlog] at h
    cases hnext : executeNext host i v' with
    | error raw x =>
      have hfails : Fails host i t u e raw x := ⟨v, v', hbefore, hlog, hnext⟩
      rw [bind_of_ok (attempt_of_error hnext)] at h
      simp only at h
      cases htold : emit host (.onError i (raw.ofStep t e.index)) x with
      | ok _ y =>
        rw [bind_of_ok htold] at h
        cases h
        exact ⟨_, rfl, .own hfails htold⟩
      | error raw' y =>
        rw [bind_of_error htold] at h
        cases h
        obtain ⟨l, v'', raw'', hl, hcall, rfl⟩ := exists_listener_of_emit htold
        exact ⟨_, rfl, .eclipsed hfails hl hcall⟩
    | ok alive x =>
      have hruns : Runs host i t u e alive x := ⟨v, v', hbefore, hlog, hnext⟩
      rw [bind_of_ok (attempt_of_ok hnext)] at h
      exact blame_of_runs hruns h

/-- A statement that fails leaves its own error, if the listeners return that are told of it. -/
theorem stepStatement_of_fails {e : LogEntry} {x : World σ ι} (hfails : Fails host i t u e fault x)
    (htold : emit host (.onError i (fault.ofStep t e.index)) x = .ok () w') :
    stepStatement host i t u = .error (.script (fault.ofStep t e.index)) w' := by
  obtain ⟨v, v', hbefore, hlog, hnext⟩ := hfails
  unfold stepStatement
  rw [bind_of_ok hbefore, bind_of_ok hlog, bind_of_ok (attempt_of_error hnext)]
  simp only
  rw [bind_of_ok htold]
  rfl

/-! ## The tick -/

theorem finish_of_ending (h : (do
      finish host i
      return false : ScriptM σ ι Bool) w = .error fault w') :
    finish host i w = .error fault w' := by
  cases hend : finish host i w with
  | ok _ y =>
    rw [bind_of_ok hend] at h
    cases h
  | error raw y =>
    rw [bind_of_error hend] at h
    cases h
    rfl

/-- **Every failing tick is to be blamed on someone.**  Either it comes to no statement, and then its
callback fails, its deadline is missing, or a listener fails at the end of the script; or it comes
to a statement, and then a script error leaves it in one of the ways of `Blame`.  A statement that
fails always has an error with a site and with the number of its step, and with the cause and the
site of the script error that stopped it; and this error is the one that leaves the tick, unless a
listener fails that is told of it. -/
theorem blame_of_tick (host : Host σ ι) (i : Nat) (w : World σ ι) :
    (∀ fault w', tick host i w = .error fault w' →
      chance host i w = .error fault w' ∨
      (∃ l v raw, l ∈ v.registry.listenersOf "script_end" ∧
        host.listener l.token (.scriptEnd i) v = .error raw w' ∧
        fault = .script ((Event.scriptEnd i).reported raw)) ∨
      ∃ u t error, chance host i w = .ok .run u ∧ (u.script i).cursor = some t ∧
        fault = .script error ∧ Blame host i t u w' error) ∧
    ∀ u t e fault x, chance host i w = .ok .run u → (u.script i).cursor = some t →
      Fails host i t u e fault x →
      (fault.ofStep t e.index).site.isSome = true ∧
      (fault.ofStep t e.index).step = some e.index ∧
      (∀ raised, fault = .script raised → (fault.ofStep t e.index).cause = raised.cause ∧
        ∀ s, raised.site = some s → (fault.ofStep t e.index).site = some s) ∧
      ∀ w', emit host (.onError i (fault.ofStep t e.index)) x = .ok () w' →
        tick host i w = .error (.script (fault.ofStep t e.index)) w' := by
  constructor
  · intro fault w' h
    rw [tick_eq_chance] at h
    cases hchance : chance host i w with
    | error raw u =>
      rw [bind_of_error hchance] at h
      cases h
      exact .inl rfl
    | ok c u =>
      rw [bind_of_ok hchance] at h
      cases c with
      | wait => cases h
      | abandon => exact .inr (.inl (exists_listener_of_finish (finish_of_ending h)))
      | run =>
        have hstep : step host i u = .error fault w' := h
        cases hcursor : (u.script i).cursor with
        | none =>
          rw [step_of_none host i hcursor] at hstep
          exact .inr (.inl (exists_listener_of_finish (finish_of_ending hstep)))
        | some t =>
          rw [step_of_some host i hcursor] at hstep
          obtain ⟨error, hfault, hblame⟩ := blame_of_stepStatement hstep
          exact .inr (.inr ⟨u, t, error, rfl, hcursor, hfault, hblame⟩)
  · intro u t e fault x hchance hcursor hfails
    refine ⟨isSome_site_ofStep t e.index fault, step_ofStep t e.index fault, ?_, ?_⟩
    · rintro raised rfl
      exact ofStep_of_script
    · intro w' htold
      rw [tick_eq_chance, bind_of_ok hchance]
      exact (step_of_some host i hcursor).trans (stepStatement_of_fails hfails htold)

end

/-- Two statements, of which the second is a command that nobody knows. -/
def mumblingRoot : Node where
  kind := .script
  children :=
    [{ kind := .statement, line := 1
       children := [{ kind := .command, lexeme := some "say", line := 1 }] },
      { kind := .statement, line := 2
        children := [{ kind := .command, lexeme := some "mumble", line := 2 }] }]

/-- A host whose listeners stumble and whose rules refuse every step. -/
def clumsyHost : Host Unit Unit :=
  { quietHost with
    listener := fun _ _ => throw (.trouble (.reported "RuntimeError" "oops"))
    rule := fun _ _ => throw (.at none (.reported "too fast")) }

/-- A world in which the script begins.  A rule is asked after every step, and a listener is told of
errors. -/
def clumsyWorld : World Unit Unit where
  host := ()
  scripts := #[.start "mumbling" mumblingRoot]
  registry :=
    ({ commands := Table.empty.insert "say" (.host ()), rules := [⟨1, ()⟩] } : Registry Unit).listen
      "on_error" ⟨0, ()⟩

/-- What a script error says: its wording, its line and its step. -/
def wordsOf : EStateM.Result Fault (World Unit Unit) Bool → Option (String × Option Int × Option Nat)
  | .error (.script error) _ => some (error.message, error.line?, error.step)
  | _ => none

/-- With a host whose listeners and rules return, the error of the second statement arrives: that of
the word that nobody knows, with the number of the second step. -/
theorem blame_of_tick_quiet :
    ∃ e fault x w', Fails quietHost 0 (lineOf mumblingRoot 1)
        { ticked clumsyWorld 1 with active := some 0 } e fault x ∧
      e.index = 1 ∧ fault.message = "Unknown command" ∧
      tick quietHost 0 (ticked clumsyWorld 1) =
        .error (.script (fault.ofStep (lineOf mumblingRoot 1) e.index)) w' := by
  let u : World Unit Unit := { ticked clumsyWorld 1 with active := some 0 }
  have hchance : chance quietHost 0 (ticked clumsyWorld 1) = .ok .run u :=
    chance_of_running quietHost 0 (by rfl)
  have hcursor : (u.script 0).cursor = some (lineOf mumblingRoot 1) := by rfl
  obtain ⟨e, fault, x, hfails, hindex, hmessage⟩ : ∃ e fault x,
      Fails quietHost 0 (lineOf mumblingRoot 1) u e fault x ∧ e.index = 1 ∧
        fault.message = "Unknown command" :=
    ⟨_, _, _, ⟨_, _, rfl, rfl, rfl⟩, rfl, rfl⟩
  obtain ⟨_, w', htold, -⟩ :=
    passes_emit quietHost_unobtrusive (.onError 0 (fault.ofStep (lineOf mumblingRoot 1) e.index)) x
  have hblame := (blame_of_tick quietHost 0 (ticked clumsyWorld 1)).2
    u (lineOf mumblingRoot 1) e fault x hchance hcursor hfails
  exact ⟨e, fault, x, w', hfails, hindex, hmessage, hblame.2.2.2 w' htold⟩

/-- **Not every error that leaves a tick can be traced to its step.**  After the first statement a
rule refuses the step, and its error has neither a site nor a step.  The second statement fails with
an error of its own; what arrives is the error of the listener that was told of it, and this has
neither a site nor a step. -/
theorem untraced_of_clumsy :
    (clumsyWorld.script 0).isRunning = true ∧
      wordsOf (tick clumsyHost 0 clumsyWorld) = some ("too fast", none, none) ∧
      (((tick clumsyHost 0).after clumsyWorld).script 0).isRunning = true ∧
      wordsOf (executeNext clumsyHost 0 ((tick clumsyHost 0).after clumsyWorld)) =
        some ("Unknown command", some 2, none) ∧
      wordsOf (tick clumsyHost 0 ((tick clumsyHost 0).after clumsyWorld)) =
        some ("Extension hook 'on_error' failed: oops", none, none) := by
  decide +kernel

end Cadence
