/-
  GRAMMAR — what may happen in a tick, and in which order.

  A tick takes one of four TURNS (`Turn.Lawful`), each with its answer, its happenings and the
  entry that it leaves in the log, and each with what leads from the world before the tick to the
  world after it:

    * the script is asleep: nothing happens;
    * there is nothing to execute: the script ends;
    * a statement goes well: it stands between its two events, with the rules before the second, and
      behind it the script ends if it has no next statement;
    * a statement fails: the error is told, and raised.

  Only the last two execute a statement, never more than one, and leave an entry.  What they execute
  is under the cursor when its turn comes: a listener that is told of the statement before may have
  moved the script, or even stopped it (`Turn.Lawful.executed`).  If listeners and rules leave the
  cursor alone, it is the statement that was told of, and the answer speaks of the world after the
  tick (`Turn.Lawful.undisturbed`).

  The numbers of the entries count on over all scripts: a run of ticks, whatever happens between
  them, numbers its steps from zero without a gap (`Ticked.grammar`).
-/
import Mathlib.Data.List.Forall2
import Cadence.Proofs.Running.Hearing
import Cadence.Proofs.Running.Resting

namespace Cadence

open ScriptM

/-- What a tick answers, what happens in its course, and what it leaves in the log. -/
structure Turn where
  /-- The answer, or the fault that is raised. -/
  answer : Except Fault Bool
  /-- What happens, in order. -/
  happenings : List Happening
  /-- The entry in the log. -/
  entry : Option LogEntry

/-- A script ends if it has no next statement. -/
def ending (i : Nat) (alive : Bool) : List Happening :=
  if alive then [] else [.event (.scriptEnd i)]

section

variable {σ ι : Type}

/-- What the rules are told of a statement whose step is noted as `e`, in the world after it. -/
def stepContext (i : Nat) (s : Statement) (e : LogEntry) (w : World σ ι) : StepContext where
  index := e.index
  script := (w.script i).name
  line := s.line
  keyword := s.head?.bind Site.lexeme

/-- The turns that a tick of a script may take, from the world before it to the world after it. -/
inductive Turn.Lawful (host : Host σ ι) (i : Nat) (w w' : World σ ι) : Turn → Prop
  /-- The script is asleep. -/
  | rests : (w.script i).Asleep w.now → w' = { w with active := some i } →
      Lawful host i w w' ⟨.ok true, [], none⟩
  /-- Its wait has run out, or it has come to its end. -/
  | ends {u : World σ ι} : (w.script i).Overdue w.now ∨ (w.script i).cursor = none →
      chance host i w = .ok .abandon u ∨
        chance host i w = .ok .run u ∧ (u.script i).cursor = none →
      finish host i u = .ok () w' →
      Lawful host i w w' ⟨.ok false, [.event (.scriptEnd i)], none⟩
  /-- The tick comes to a statement, and what is under the cursor then goes well; the answer says
  whether there is a next one. -/
  | runs (s : Statement) {e : LogEntry} {v x : World σ ι} {alive : Bool} :
      ComesTo host i w s e v → executeNext host i v = .ok alive x →
      alive = (x.script i).isRunning →
      (do
        afterStep host i s e
        if !alive then finish host i : ScriptM σ ι Unit) x = .ok () w' →
      Lawful host i w w' ⟨.ok alive,
        [.event (.beforeStatement i s), .step (stepContext i s e x), .event (.afterStatement i s)] ++
          ending i alive, some e⟩
  /-- It comes to a statement, and there is a fault, of any kind; it is raised as a script error of
  that statement. -/
  | fails (s : Statement) {e : LogEntry} {v x : World σ ι} {fault : Fault} :
      ComesTo host i w s e v → executeNext host i v = .error fault x →
      emit host (.onError i (fault.ofStep s e.index)) x = .ok () w' →
      Lawful host i w w' ⟨.error (.script (fault.ofStep s e.index)),
        [.event (.beforeStatement i s), .event (.onError i (fault.ofStep s e.index))], some e⟩

namespace Turn.Lawful

variable {host : Host σ ι} {i : Nat} {w w' : World σ ι} {p : Turn}

/-- The answer is no exactly when the script ended. -/
theorem refused (h : p.Lawful host i w w') :
    p.answer = .ok false ↔ .event (.scriptEnd i) ∈ p.happenings := by
  cases h with
  | rests => simp
  | ends => simp
  | @runs _ _ _ _ alive => cases alive <;> simp [ending]
  | fails => simp

/-- A fault is raised exactly when it was told. -/
theorem raised (h : p.Lawful host i w w') (fault : Fault) :
    p.answer = .error fault ↔
      ∃ error, fault = .script error ∧ .event (.onError i error) ∈ p.happenings := by
  cases h with
  | rests => simp
  | ends => simp
  | @runs _ _ _ _ alive => cases alive <;> simp [ending]
  | fails => simp [eq_comm]

/-- What is told has a site, and the number of the step. -/
theorem located (h : p.Lawful host i w w') {error : ScriptError}
    (herror : .event (.onError i error) ∈ p.happenings) :
    error.site.isSome = true ∧ ∃ e, p.entry = some e ∧ error.step = some e.index := by
  cases h with
  | rests => simp at herror
  | ends => simp at herror
  | @runs _ _ _ _ alive => cases alive <;> simp [ending] at herror
  | @fails s e _ _ fault =>
    obtain rfl : error = fault.ofStep s e.index := by simpa using herror
    cases fault with
    | script error =>
      refine ⟨?_, e, rfl, rfl⟩
      show (error.site <|> some s.site).isSome = true
      cases error.site with
      | none => rfl
      | some site => rfl
    | trouble why => exact ⟨rfl, e, rfl, rfl⟩

/-- An entry is left exactly when a tick comes to a statement. -/
theorem entered (h : p.Lawful host i w w') :
    p.entry.isSome = true ↔ ∃ s e v, ComesTo host i w s e v := by
  cases h with
  | rests hasleep =>
    refine ⟨nofun, ?_⟩
    rintro ⟨_, _, _, hcomes⟩
    exact absurd hcomes (not_comesTo_of_asleep hasleep)
  | ends _ hchance =>
    refine ⟨nofun, ?_⟩
    rintro ⟨s, _, _, u, hrun, hs, -⟩
    obtain habandon | ⟨hchance, hnone⟩ := hchance
    · cases habandon.symm.trans hrun
    · cases hchance.symm.trans hrun
      cases hnone.symm.trans hs
  | runs s hcomes => exact ⟨fun _ => ⟨_, _, _, hcomes⟩, fun _ => rfl⟩
  | fails s hcomes => exact ⟨fun _ => ⟨_, _, _, hcomes⟩, fun _ => rfl⟩

/-- **A statement is executed in the last two turns only**, and in these exactly if the listeners
that are told of it before do not stop the script; if they do, the script has ended. -/
theorem executed (h : p.Lawful host i w w') :
    p.entry.isSome = true ↔ (∃ t, Executes host i w t) ∨
      p.answer = .ok false ∧ ∃ s e v, ComesTo host i w s e v ∧ (v.script i).cursor = none := by
  constructor
  · intro hentry
    cases h with
    | rests => cases hentry
    | ends => cases hentry
    | @runs s e v x _ hcomes hnext _ _ =>
      cases hcursor : (v.script i).cursor with
      | some t => exact .inl ⟨t, executes_iff_comesTo.mpr ⟨s, e, v, hcomes, hcursor⟩⟩
      | none =>
        cases hnext.symm.trans (executeNext_of_none host i hcursor)
        exact .inr ⟨rfl, s, e, v, hcomes, hcursor⟩
    | @fails s e v x fault hcomes hnext _ =>
      cases hcursor : (v.script i).cursor with
      | some t => exact .inl ⟨t, executes_iff_comesTo.mpr ⟨s, e, v, hcomes, hcursor⟩⟩
      | none => cases hnext.symm.trans (executeNext_of_none host i hcursor)
  · rw [h.entered]
    rintro (⟨t, ht⟩ | ⟨-, hcomes⟩)
    · obtain ⟨s, e, v, hcomes, -⟩ := executes_iff_comesTo.mp ht
      exact ⟨s, e, v, hcomes⟩
    · obtain ⟨s, e, v, hcomes, -⟩ := hcomes
      exact ⟨s, e, v, hcomes⟩

/-- If listeners and rules leave the cursor alone, a statement that is told of is executed, and the
answer says whether the script has a next statement after the tick. -/
theorem undisturbed (hs : host.Surrounds (Same Script.cursor i)) (h : p.Lawful host i w w')
    (hentry : p.entry.isSome = true) :
    (∃ t, Executes host i w t) ∧
    ∀ alive, p.answer = .ok alive → alive = (w'.script i).isRunning := by
  constructor
  · obtain ⟨s, e, v, hcomes⟩ := h.entered.mp hentry
    exact ⟨s, executes_iff_comesTo.mpr ⟨s, e, v, hcomes, hcomes.same hs⟩⟩
  · intro alive halive
    cases h with
    | rests => cases hentry
    | ends => cases hentry
    | @runs s e _ x _ _ _ hx hafter =>
      cases halive
      -- the rules and the listeners behind the statement leave the cursor where it is
      have hstep := hs.toStepwise
      have htail : Goes (Same Script.cursor i) (do
          afterStep host i s e
          if !alive then finish host i : ScriptM σ ι Unit) := by
        refine .bind hstep (goes_afterStep hstep hs.listener hs.rule i s e) fun _ => ?_
        cases alive with
        | true => exact .pure hstep ()
        | false => exact goes_finish hs i
      obtain ⟨_, _, hgoes, hsame⟩ := htail x
      cases hgoes.symm.trans hafter
      rw [hx, Script.isRunning, Script.isRunning, hsame]
    | fails => cases halive

end Turn.Lawful

/-! ## One tick -/

/-- Who is told of happenings, of which the first is told under one registry and the others under
another: a command may register something. -/
def heard (before after : Registry ι) : List Happening → List (Note ι)
  | [] => []
  | h :: rest => before.told h ++ rest.flatMap after.told

/-- What a turn leaves behind: its notes and its entry. -/
structure Turn.Leaves (p : Turn) (w w' : World (σ × List (Note ι)) ι) : Prop where
  /-- Listeners and rules were told what happened. -/
  notes : w'.host.2 = w.host.2 ++ heard w.registry w'.registry p.happenings
  /-- The entry was logged, and nothing else. -/
  log : w'.log = p.entry.elim w.log w.log.record
  /-- Its number is the next one. -/
  number : ∀ e ∈ p.entry, e.index = w.log.next
  /-- Scripts that are suspended have not lost their deadlines. -/
  timed : (∀ i, (w.script i).Timed) → ∀ i, (w'.script i).Timed

variable {host : Host σ ι} (hh : Courteous host)
include hh

/-- The rules and the event after a statement. -/
theorem afterStep_told (i : Nat) (t : Statement) (e : LogEntry)
    (w : World (σ × List (Note ι)) ι) :
    ∃ w', afterStep host.hearing i t e w = .ok () w' ∧
      Tells ([.step (stepContext i t e w), .event (.afterStatement i t)].flatMap w.registry.told)
        w w' := by
  obtain ⟨u, hu, hrules⟩ := applyRules_told hh t (stepContext i t e w) w
  obtain ⟨w', hw', hevent⟩ := emit_told hh (.afterStatement i t) u
  refine ⟨w', ?_, ?_⟩
  · unfold afterStep
    rw [script_bind]
    exact (bind_of_ok hu).trans hw'
  · rw [hrules.registry] at hevent
    simpa using hrules.trans hevent

/-- The end of a script, if it has ended. -/
theorem ending_told (i : Nat) (alive : Bool) (w : World (σ × List (Note ι)) ι) :
    ∃ w', (do if !alive then finish host.hearing i :
        ScriptM (σ × List (Note ι)) ι Unit) w = .ok () w' ∧
      (do
        if !alive then finish host.hearing i
        return alive : ScriptM (σ × List (Note ι)) ι Bool) w = .ok alive w' ∧
      Tells ((ending i alive).flatMap w.registry.told) w w' := by
  cases alive with
  | true => exact ⟨w, rfl, rfl, .refl w⟩
  | false =>
    obtain ⟨w', hw', htold⟩ := finish_told hh i w
    refine ⟨w', hw', (bind_of_ok hw').trans rfl, ?_⟩
    simpa [ending] using htold

omit hh in
/-- The answer of a statement that goes well says whether there is a next one. -/
theorem executeNext_alive {host : Host σ ι} {i : Nat} {v v' : World σ ι} {alive : Bool}
    (h : executeNext host i v = .ok alive v') : alive = (v'.script i).isRunning := by
  cases hcursor : (v.script i).cursor with
  | none =>
    cases h.symm.trans (executeNext_of_none host i hcursor)
    rw [Script.isRunning, hcursor]
    rfl
  | some t =>
    rw [executeNext_of_cursor host i hcursor] at h
    obtain ⟨_, u, _, h⟩ := bind_ok h
    cases h
    rfl

/-- **A statement takes one of the last two turns.** -/
theorem stepStatement_turn (i : Nat) (t : Statement) {w₀ w : World (σ × List (Note ι)) ι}
    (hchance : chance host.hearing i w₀ = .ok .run w) (hcursor : (w.script i).cursor = some t)
    (hw : Tells [] w₀ w) :
    ∃ p : Turn, ∃ w', attempt (stepStatement host.hearing i t) w = .ok p.answer w' ∧
      p.Lawful host.hearing i w₀ w' ∧ p.Leaves w₀ w' := by
  -- before the statement stand its event and its entry
  obtain ⟨u, hemit, hu⟩ := emit_told hh (.beforeStatement i t) w
  have hbefore := hw.after hu
  obtain ⟨e, hlog, hindex⟩ : ∃ e, logStep i t u = .ok e { u with log := u.log.record e } ∧
      e.index = u.log.next := ⟨_, rfl, rfl⟩
  let v : World (σ × List (Note ι)) ι := { u with log := u.log.record e }
  have hcomes : ComesTo host.hearing i w₀ t e v :=
    ⟨w, hchance, hcursor, (bind_of_ok hemit).trans hlog⟩
  have hvlog : v.log = w₀.log.record e := by
    show u.log.record e = _
    rw [hbefore.log]
  have hnumber : ∀ e' ∈ some e, e'.index = w₀.log.next := by
    rintro _ ⟨⟩
    rw [hindex, hbefore.log]
  cases hx : executeNext host.hearing i v with
  | ok alive v' =>
    have hexecute := (unheard_executeNext hh i).ok hx
    obtain ⟨x, hafter, hx'⟩ := afterStep_told hh i t e v'
    obtain ⟨y, hend, hanswer, hy⟩ := ending_told hh i alive x
    have hstep : stepStatement host.hearing i t w = .ok alive y := by
      unfold stepStatement
      rw [bind_of_ok hemit, bind_of_ok hlog, bind_of_ok (attempt_of_ok hx)]
      simp only
      rw [bind_of_ok hafter]
      exact hanswer
    refine ⟨_, y, attempt_of_ok hstep,
      .runs t hcomes hx (executeNext_alive hx) ((bind_of_ok hafter).trans hend), ?_⟩
    have hregistry : y.registry = v'.registry := hy.registry.trans hx'.registry
    rw [hx'.registry] at hy
    exact
      { notes := by
          rw [hy.notes, hx'.notes, hexecute.notes, hbefore.notes, hregistry, hw.registry]
          simp [heard]
        log := by rw [hy.log, hx'.log, hexecute.log, hvlog]; rfl
        number := hnumber
        timed := fun ht => hy.timed (hx'.timed (hexecute.timed (hbefore.timed ht))) }
  | error fault v' =>
    have hexecute := (unheard_executeNext hh i).error hx
    obtain ⟨y, herror, hy⟩ := emit_told hh (.onError i (fault.ofStep t e.index)) v'
    have hstep : stepStatement host.hearing i t w =
        .error (.script (fault.ofStep t e.index)) y := by
      unfold stepStatement
      rw [bind_of_ok hemit, bind_of_ok hlog, bind_of_ok (attempt_of_error hx)]
      simp only
      rw [bind_of_ok herror]
      rfl
    refine ⟨_, y, attempt_of_error hstep, .fails t hcomes hx herror, ?_⟩
    exact
      { notes := by
          rw [hy.notes, hexecute.notes, hbefore.notes, hy.registry, hw.registry]
          simp [heard]
        log := by rw [hy.log, hexecute.log, hvlog]; rfl
        number := hnumber
        timed := fun ht => hy.timed (hexecute.timed (hbefore.timed ht)) }

/-- The end of a script that has nothing to execute. -/
theorem finish_turn (i : Nat) {w₀ w : World (σ × List (Note ι)) ι} (hw : Tells [] w₀ w)
    (hends : (w₀.script i).Overdue w₀.now ∨ (w₀.script i).cursor = none)
    (hchance : chance host.hearing i w₀ = .ok .abandon w ∨
      chance host.hearing i w₀ = .ok .run w ∧ (w.script i).cursor = none) :
    ∃ p : Turn, ∃ w', attempt (do
        finish host.hearing i
        return false) w = .ok p.answer w' ∧
      p.Lawful host.hearing i w₀ w' ∧ p.Leaves w₀ w' := by
  obtain ⟨w', hw', htold⟩ := finish_told hh i w
  have hfinish : (do
      finish host.hearing i
      return false : ScriptM (σ × List (Note ι)) ι Bool) w = .ok false w' :=
    (bind_of_ok hw').trans rfl
  refine ⟨_, w', attempt_of_ok hfinish, .ends hends hchance hw', ?_⟩
  have hall := hw.after htold
  exact
    { notes := by
        rw [hall.notes, hw.registry]
        simp [heard]
      log := hall.log
      number := nofun
      timed := hall.timed }

/-- **A tick takes one of the four turns.** -/
theorem tick_turn (i : Nat) {w : World (σ × List (Note ι)) ι} (ht : (w.script i).Timed) :
    ∃ p : Turn, attempt (tick host.hearing i) w = .ok p.answer ((tick host.hearing i).after w) ∧
      p.Lawful host.hearing i w ((tick host.hearing i).after w) ∧
      p.Leaves w ((tick host.hearing i).after w) := by
  suffices h : ∃ p : Turn, ∃ w', attempt (tick host.hearing i) w = .ok p.answer w' ∧
      p.Lawful host.hearing i w w' ∧ p.Leaves w w' by
    obtain ⟨p, w', hw', hp⟩ := h
    have hafter : (tick host.hearing i).after w = w' := by
      rw [← after_attempt, after_of_ok hw']
    exact ⟨p, hafter ▸ hw', hafter ▸ hp⟩
  obtain ⟨c, u, hchance, hu, hwhy⟩ := chance_told hh i ht
  rw [tick_eq_chance, attempt_congr (bind_of_ok hchance)]
  cases c with
  | wait =>
    obtain ⟨hrest, d, hdeadline, hearly⟩ := hwhy
    cases hchance.symm.trans (chance_of_early _ hrest hdeadline hearly)
    refine ⟨⟨.ok true, [], none⟩, _, rfl, .rests ⟨hrest, d, hdeadline, hearly⟩ rfl, ?_⟩
    exact { notes := hu.notes, log := hu.log, number := nofun, timed := hu.timed }
  | abandon => exact finish_turn hh i hu (.inl hwhy) (.inl hchance)
  | run =>
    simp only
    cases hcursor : (u.script i).cursor with
    | some t =>
      rw [attempt_congr (step_of_some _ _ hcursor)]
      exact stepStatement_turn hh i t hchance hcursor hu
    | none =>
      rw [attempt_congr (step_of_none _ _ hcursor)]
      refine finish_turn hh i hu ?_ (.inr ⟨hchance, hcursor⟩)
      rcases hwhy with hover | hsame
      · exact .inl hover
      · exact .inr (hsame ▸ hcursor)

omit hh

/-! ## Many ticks -/

/-- A tick of a script, in a world. -/
structure Tick (σ ι : Type) where
  /-- The script. -/
  script : Nat
  /-- The world in which it gets its tick. -/
  world : World (σ × List (Note ι)) ι

/-- The world after it. -/
def Tick.after (host : Host σ ι) (c : Tick σ ι) : World (σ × List (Note ι)) ι :=
  (tick host.hearing c.script).after c.world

/-- A tick takes a turn. -/
structure Tick.Takes (host : Host σ ι) (c : Tick σ ι) (p : Turn) : Prop where
  /-- The turn is one of the four, from the world before the tick to the world after it. -/
  lawful : p.Lawful host.hearing c.script c.world (c.after host)
  /-- The answer, or the fault, is that of the turn. -/
  answer : attempt (tick host.hearing c.script) c.world = .ok p.answer (c.after host)
  /-- The notes and the entry are those of the turn. -/
  leaves : p.Leaves c.world (c.after host)
  /-- The answer is no exactly when the end of the script was told. -/
  refused : p.answer = .ok false ↔ .event (.scriptEnd c.script) ∈ p.happenings
  /-- A fault is raised exactly when it was told, and it is a script error. -/
  raised : ∀ fault, p.answer = .error fault ↔
    ∃ error, fault = .script error ∧ .event (.onError c.script error) ∈ p.happenings
  /-- The error has a site, and the number of the entry. -/
  located : ∀ error, .event (.onError c.script error) ∈ p.happenings →
    error.site.isSome = true ∧ ∃ e, p.entry = some e ∧ error.step = some e.index
  /-- One statement is executed at most. -/
  single : ∀ t t', Executes host.hearing c.script c.world t →
    Executes host.hearing c.script c.world t' → t = t'
  /-- An entry is left exactly if one is executed, or if the listeners that were told of one before
  have stopped the script, which has ended then. -/
  executed : p.entry.isSome = true ↔ (∃ t, Executes host.hearing c.script c.world t) ∨
    p.answer = .ok false ∧
      ∃ s e v, ComesTo host.hearing c.script c.world s e v ∧ (v.script c.script).cursor = none
  /-- If listeners and rules leave the cursor alone, an entry is left exactly if a statement is
  executed, and then the answer says whether the script has a next one after the tick. -/
  undisturbed : host.Surrounds (Same Script.cursor c.script) →
    (p.entry.isSome = true ↔ ∃ t, Executes host.hearing c.script c.world t) ∧
    (p.entry.isSome = true → ∀ alive, p.answer = .ok alive →
      alive = ((c.after host).script c.script).isRunning)

/-- Ticks from a world with fresh scripts in which nothing is logged yet; between them anything may
happen that is no tick and takes no deadline from a script that is suspended. -/
inductive Ticked (host : Host σ ι) : List (Tick σ ι) → World (σ × List (Note ι)) ι → Prop
  /-- The scripts are fresh. -/
  | start (w) : (∀ s ∈ w.scripts, ∃ name root, s = .start name root) → w.log.next = 0 →
      Ticked host [] w
  /-- Something happens between the ticks. -/
  | between {cs w w'} : Ticked host cs w → Unlogged w w' → Ticked host cs w'
  /-- A script gets a tick. -/
  | tick {cs w} (i : Nat) : Ticked host cs w →
      Ticked host (cs ++ [⟨i, w⟩]) ((Cadence.tick host.hearing i).after w)

/-- A fresh script is not suspended. -/
theorem timed_of_fresh {w : World (σ × List (Note ι)) ι}
    (hw : ∀ s ∈ w.scripts, ∃ name root, s = .start name root) (i : Nat) : (w.script i).Timed := by
  have hrunning : (w.script i).activity = .running := by
    by_cases hi : i < w.scripts.size
    · obtain ⟨name, root, hs⟩ := hw _ (Array.getElem_mem hi)
      have hscript : w.script i = w.scripts[i] := by
        rw [World.script, Array.getD_eq_getD_getElem?, Array.getElem?_eq_getElem hi]
        rfl
      rw [hscript, hs]
      rfl
    · rw [World.script_of_size_le (Nat.le_of_not_lt hi)]
      rfl
  exact fun h => absurd hrunning h

/-- The entries of all turns are numbered, and no script that is suspended lacks its deadline. -/
theorem Ticked.turns {host : Host σ ι} (hh : Courteous host) {cs : List (Tick σ ι)}
    {w : World (σ × List (Note ι)) ι} (h : Ticked host cs w) :
    (∀ i, (w.script i).Timed) ∧ ∃ turns : List Turn, List.Forall₂ (Tick.Takes host) cs turns ∧
      (turns.filterMap Turn.entry).map LogEntry.index = List.range w.log.next := by
  induction h with
  | start w hfresh hnext =>
    refine ⟨timed_of_fresh hfresh, [], .nil, ?_⟩
    rw [hnext]
    rfl
  | between _ hw ih =>
    obtain ⟨ht, turns, htakes, hnumbers⟩ := ih
    refine ⟨hw.timed ht, turns, htakes, ?_⟩
    rw [hw.log, hnumbers]
  | @tick cs w i _ ih =>
    obtain ⟨ht, turns, htakes, hnumbers⟩ := ih
    obtain ⟨p, hanswer, hlawful, hleaves⟩ := tick_turn hh i (ht i)
    have hp : Tick.Takes host ⟨i, w⟩ p :=
      { lawful := hlawful, answer := hanswer, leaves := hleaves
        refused := hlawful.refused
        raised := hlawful.raised
        located := fun _ => hlawful.located
        single := fun _ _ h h' => h.unique h'
        executed := hlawful.executed
        undisturbed := fun hs =>
          ⟨⟨fun hentry => (hlawful.undisturbed hs.hearing hentry).1,
              fun h => hlawful.executed.mpr (.inl h)⟩,
            fun hentry => (hlawful.undisturbed hs.hearing hentry).2⟩ }
    refine ⟨hleaves.timed ht, turns ++ [p], List.rel_append htakes (.cons hp .nil), ?_⟩
    -- the entry of the turn, if there is one, has the next number
    rw [List.filterMap_append, List.map_append, hnumbers, hleaves.log]
    cases he : p.entry with
    | none => simp [he]
    | some e =>
      have hindex := hleaves.number e he
      simp [he, hindex, StepLog.record, List.range_succ]

/-- **The grammar of ticks**: every tick takes one of the four turns, with at most one statement, and
the entries that the ticks leave are numbered from zero without a gap, over all scripts. -/
theorem Ticked.grammar {host : Host σ ι} (hh : Courteous host) {cs : List (Tick σ ι)}
    {w : World (σ × List (Note ι)) ι} (h : Ticked host cs w) :
    ∃ turns : List Turn, List.Forall₂ (Tick.Takes host) cs turns ∧
      (turns.filterMap Turn.entry).map LogEntry.index = List.range w.log.next :=
  (h.turns hh).2

end

/-! ## A script that ends, and one that fails -/

/-- A script of one command. -/
def wordRoot (word : String) : Node where
  kind := .script
  children := [{ kind := .statement, children := [{ kind := .command, lexeme := some word }] }]

/-- Two scripts, of which the second has a command that nobody knows; there are listeners for all
events, and a rule for every second step. -/
def talkingWorld : World (Unit × List (Note Unit)) Unit where
  host := ((), [])
  scripts := #[.start "one" (wordRoot "say"), .start "two" (wordRoot "mumble")]
  registry :=
    ((((({ commands := Table.empty.insert "say" (.host ()), rules := [⟨2, ()⟩] } :
      Registry Unit).listen "before_statement" ⟨0, ()⟩).listen "after_statement" ⟨0, ()⟩).listen
        "on_error" ⟨0, ()⟩).listen "script_end" ⟨0, ()⟩)

/-- The world after a number of ticks, which the scripts get in turn. -/
def talkingAfter : Nat → World (Unit × List (Note Unit)) Unit
  | 0 => talkingWorld
  | n + 1 => (tick quietHost.hearing (n % 2)).after (talkingAfter n)

theorem quietHost_courteous : Courteous quietHost where
  command _ _ _ _ _ w := .refl w
  expression _ _ _ _ w := .refl w
  computedAlias _ _ w := .refl w
  write _ w := .refl w
  listener _ _ w := ⟨_, w, rfl, .refl w, rfl⟩
  rule _ _ w := ⟨_, w, rfl, .refl w, rfl⟩
  callback _ w := ⟨_, w, rfl, .refl w, rfl⟩

/-- One script executes its command and ends, the other fails, and then the first has nothing left:
two entries for three ticks. -/
theorem grammar_talking :
    Courteous quietHost ∧
    Ticked quietHost [⟨0, talkingAfter 0⟩, ⟨1, talkingAfter 1⟩, ⟨0, talkingAfter 2⟩]
      (talkingAfter 3) ∧
    ∃ turns : List Turn,
      List.Forall₂ (Tick.Takes quietHost)
        [⟨0, talkingAfter 0⟩, ⟨1, talkingAfter 1⟩, ⟨0, talkingAfter 2⟩] turns ∧
      (turns.filterMap Turn.entry).map LogEntry.index = [0, 1] := by
  have hstart : Ticked quietHost [] (talkingAfter 0) := by
    refine .start _ (fun s hs => ?_) rfl
    rcases (by simpa [talkingAfter, talkingWorld] using hs :
      s = .start "one" (wordRoot "say") ∨ s = .start "two" (wordRoot "mumble")) with rfl | rfl
    · exact ⟨_, _, rfl⟩
    · exact ⟨_, _, rfl⟩
  have hticks := ((hstart.tick 0).tick 1).tick 0
  have hnext : List.range (talkingAfter 3).log.next = [0, 1] := by decide +kernel
  exact ⟨quietHost_courteous, hticks, hnext ▸ Ticked.grammar quietHost_courteous hticks⟩

/-- What a note is about. -/
def Note.subject {ι : Type} : Note ι → String
  | .heard _ e => e.name
  | .ruled _ _ => "step"

example : (talkingAfter 3).host.2.map Note.subject =
    ["before_statement", "step", "after_statement", "script_end", "before_statement", "on_error",
      "script_end"] := by decide +kernel

end Cadence
