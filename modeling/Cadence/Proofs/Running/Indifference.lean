/-
  INDIFFERENCE — what evaluation, events and rules do not touch.

  Most of what happens in a tick moves no script: arguments are resolved, expressions are evaluated,
  bundled words change the shared stores, listeners and rules are called.  All of it keeps every
  tolerant relation that the host keeps (`Host.Keeps`), so none of it has to be opened again for a
  new relation.

  Four bundled commands do move or suspend the active script; what they keep is asked for, of one of
  them in `Bundled.KeepsFor` and of all in `Bundled.Keeps`, and `keeps_runCommand` is about all
  commands then.  A relation that allows every script to be suspended and sent about keeps them all
  (`Roams`).
-/
import Cadence.Proofs.Running.Keeping

namespace Cadence

open ScriptM

variable {σ ι : Type} {R : World σ ι → World σ ι → Prop}

/-! ## The host and the bundled words -/

/-- Whatever the host does, except for its commands and callbacks, keeps a relation. -/
structure Host.Keeps (R : World σ ι → World σ ι → Prop) (host : Host σ ι) : Prop where
  /-- Its expressions keep it. -/
  expression : ∀ t word args quiet, Cadence.Keeps R (host.expression t word args quiet)
  /-- Its aliases keep it. -/
  computedAlias : ∀ t name, Cadence.Keeps R (host.computedAlias t name)
  /-- Its listeners keep it. -/
  listener : ∀ t e, Cadence.Keeps R (host.listener t e)
  /-- Its step rules keep it. -/
  rule : ∀ t c, Cadence.Keeps R (host.rule t c)
  /-- Taking output keeps it. -/
  write : ∀ line, Cadence.Keeps R (host.write line)

/-- What the host does in the course of a statement, except for its commands, keeps a relation. -/
structure Host.Serves (R : World σ ι → World σ ι → Prop) (host : Host σ ι) : Prop where
  /-- Its expressions keep it. -/
  expression : ∀ t word args quiet, Cadence.Keeps R (host.expression t word args quiet)
  /-- Its aliases keep it. -/
  computedAlias : ∀ t name, Cadence.Keeps R (host.computedAlias t name)
  /-- Taking output keeps it. -/
  write : ∀ line, Cadence.Keeps R (host.write line)

theorem Host.Keeps.serves {host : Host σ ι} (hh : host.Keeps R) : host.Serves R :=
  ⟨hh.expression, hh.computedAlias, hh.write⟩

instance {host : Host σ ι} : Coe (host.Keeps R) (host.Serves R) := ⟨Host.Keeps.serves⟩

theorem Host.Keeps.mono {S : World σ ι → World σ ι → Prop} {host : Host σ ι} (hh : host.Keeps R)
    (h : ∀ w w', R w w' → S w w') : host.Keeps S where
  expression t word args quiet := (hh.expression t word args quiet).mono h
  computedAlias t name := (hh.computedAlias t name).mono h
  listener t e := (hh.listener t e).mono h
  rule t c := (hh.rule t c).mono h
  write line := (hh.write line).mono h

/-- Whatever a host supplies keeps a relation. -/
structure Host.KeepsThroughout (R : World σ ι → World σ ι → Prop) (host : Host σ ι) : Prop where
  /-- What it does around the statements. -/
  around : host.Keeps R
  /-- What it does for commands. -/
  command : ∀ t word args quiet force, Cadence.Keeps R (host.command t word args quiet force)
  /-- What it does when a callback is asked. -/
  callback : ∀ t, Cadence.Keeps R (host.callback t)

/-- Does a bundled command move or suspend the active script? -/
def Bundled.Command.moves : Bundled.Command → Bool
  | .pause | .waitForJournal | .goto | .return_ => true
  | _ => false

/-- The bundled commands that move or suspend the active script keep a relation. -/
structure Bundled.Keeps (R : World σ ι → World σ ι → Prop) : Prop where
  /-- Resting. -/
  pause : ∀ d, Cadence.Keeps R (pause d)
  /-- Waiting for the journal. -/
  wait : ∀ d, Cadence.Keeps R (timeout d (some .giveUp))
  /-- Jumping to a line. -/
  goto : ∀ line, Cadence.Keeps R (gotoLine line)
  /-- Coming back from a jump. -/
  return_ : ∀ w, R w (w.modifyActive Script.returnFromGoto)

/-- What a bundled command does to the active script, if it moves or suspends it, keeps a relation. -/
def Bundled.KeepsFor (R : World σ ι → World σ ι → Prop) : Bundled.Command → Prop
  | .pause => ∀ d, Cadence.Keeps R (pause d)
  | .waitForJournal => ∀ d, Cadence.Keeps R (timeout d (some .giveUp))
  | .goto => ∀ line, Cadence.Keeps R (gotoLine line)
  | .return_ => ∀ w, R w (w.modifyActive Script.returnFromGoto)
  | _ => True

theorem Bundled.Keeps.keepsFor (hb : Bundled.Keeps R) (c : Bundled.Command) :
    Bundled.KeepsFor R c := by
  cases c with
  | pause => exact hb.pause
  | waitForJournal => exact hb.wait
  | goto => exact hb.goto
  | return_ => exact hb.return_
  | _ => trivial

theorem Bundled.keepsFor_of_not_moves {c : Bundled.Command} (h : c.moves = false) :
    Bundled.KeepsFor R c := by
  cases c with
  | pause | waitForJournal | goto | return_ => exact absurd h (by decide)
  | _ => trivial

section

variable {host : Host σ ι} (hR : Tolerant R)
include hR

theorem keeps_seconds (d : Duration) : Keeps R (seconds d : ScriptM σ ι Float) := .lift hR _

theorem keeps_requireActive (action : String) :
    Keeps R (requireActive action : ScriptM σ ι Nat) := by
  unfold requireActive
  refine .bind hR (.get hR) fun w => ?_
  split
  · exact .pure hR _
  · exact .fail hR _ _

/-! ## Moving and suspending the active script -/

theorem keeps_pauseScript {i : Nat} (h : ∀ d w, R w (w.modifyScript i (·.pause d)))
    (d : Duration) : Keeps R (pauseScript i d : ScriptM σ ι Unit) := by
  unfold pauseScript
  refine .bind hR (.script hR i) fun s => .ite ?_ (.pure hR _)
  exact .bind hR (keeps_seconds hR d) fun x => .modify fun w => h _ w

theorem keeps_timeoutScript {i : Nat} {c : Option (Callback ι)}
    (h : ∀ d w, R w (w.modifyScript i (·.timeout d c))) (d : Duration) :
    Keeps R (timeoutScript i d c : ScriptM σ ι Unit) := by
  unfold timeoutScript
  refine .bind hR (.script hR i) fun s => .ite ?_ (.pure hR _)
  exact .bind hR (keeps_seconds hR d) fun x => .modify fun w => h _ w

theorem keeps_gotoScript {i : Nat} {line : Int}
    (h : ∀ w s, (w.script i).gotoLine? line = some s → R w (w.modifyScript i fun _ => s)) :
    Keeps R (gotoScript i line : ScriptM σ ι Bool) := by
  intro w
  cases hs : (w.script i).gotoLine? line with
  | none =>
    rw [after_of_ok (gotoScript_of_none hs)]
    exact hR.refl w
  | some s =>
    rw [after_of_ok (gotoScript_of_some hs)]
    exact h w s hs

theorem keeps_pause (h : ∀ i d w, R w (w.modifyScript i (·.pause d))) (d : Duration) :
    Keeps R (pause d : ScriptM σ ι Unit) :=
  .bind hR (keeps_requireActive hR _) fun i => keeps_pauseScript hR (h i) d

theorem keeps_timeout {c : Option (Callback ι)}
    (h : ∀ i d w, R w (w.modifyScript i (·.timeout d c))) (d : Duration) :
    Keeps R (timeout d c : ScriptM σ ι Unit) :=
  .bind hR (keeps_requireActive hR _) fun i => keeps_timeoutScript hR (h i) d

theorem keeps_gotoLine {line : Int}
    (h : ∀ i w s, (w.script i).gotoLine? line = some s → R w (w.modifyScript i fun _ => s)) :
    Keeps R (gotoLine line : ScriptM σ ι Bool) := by
  unfold gotoLine
  refine .bind hR (.get hR) fun w => ?_
  split
  · exact .pure hR _
  · rename_i i _
    exact keeps_gotoScript hR (h i)

/-- A change of a script that writes nothing but its suspension. -/
def Script.Suspends (f : Script ι → Script ι) : Prop :=
  ∀ s, ∃ activity deadline callback, f s = { s with activity, deadline, callback }

omit hR in
theorem Script.suspends_pause (d : Float) : Suspends (ι := ι) (·.pause d) := by
  intro s
  show ∃ _ _ _, s.pause d = _
  unfold pause
  split
  · exact ⟨_, _, s.callback, rfl⟩
  · exact ⟨s.activity, s.deadline, s.callback, rfl⟩

omit hR in
theorem Script.suspends_timeout (d : Float) (c : Option (Callback ι)) :
    Suspends (·.timeout d c) := by
  intro s
  show ∃ _ _ _, s.timeout d c = _
  unfold timeout
  split
  · exact ⟨_, _, _, rfl⟩
  · exact ⟨s.activity, s.deadline, s.callback, rfl⟩

omit hR in
theorem Script.suspends_unpause : Suspends (ι := ι) unpause := by
  intro s
  unfold unpause
  split
  · exact ⟨_, _, s.callback, rfl⟩
  · exact ⟨s.activity, s.deadline, s.callback, rfl⟩

omit hR in
theorem Script.suspends_clearTimeout : Suspends (ι := ι) clearTimeout := by
  intro s
  unfold clearTimeout
  split
  · exact ⟨_, _, _, rfl⟩
  · exact ⟨s.activity, s.deadline, s.callback, rfl⟩

/-- The bundled commands that do not move a script only suspend one. -/
theorem Bundled.keepsFor_of_suspends
    (h : ∀ j f w, Script.Suspends f → R w (w.modifyScript j f)) {c : Bundled.Command}
    (hg : c ≠ .goto) (hr : c ≠ .return_) : Bundled.KeepsFor R c := by
  cases c with
  | pause => exact keeps_pause hR fun j d w => h j _ w (Script.suspends_pause d)
  | waitForJournal => exact keeps_timeout hR fun j d w => h j _ w (Script.suspends_timeout d _)
  | goto => exact absurd rfl hg
  | return_ => exact absurd rfl hr
  | _ => trivial

/-! ## Reading arguments -/

theorem keeps_timerExpired (name : String) :
    Keeps R (timerExpired name : ScriptM σ ι Bool) := by
  refine .modifyGet fun w => ?_
  unfold World.timerExpired
  split
  · exact hR.refl w
  · split
    · exact hR.slight (.stores ..)
    · exact hR.refl w

theorem keeps_setTimer (name : String) (d : Duration) :
    Keeps R (setTimer name d : ScriptM σ ι Unit) := by
  have start : Keeps R (do
      let s ← seconds d
      modify fun w => { w with timers := w.timers.insert name (w.now + s) } :
      ScriptM σ ι Unit) := by
    refine .bind hR (keeps_seconds hR d) fun s => .modify fun w => ?_
    exact hR.slight (.stores ..)
  unfold setTimer
  refine .bind hR (.get hR) fun w => ?_
  refine .ite (.bind hR (keeps_timerExpired hR name) fun b => ?_) start
  exact .ite (.pure hR _) start

theorem keeps_getAlias (hh : host.Serves R) (name : String) :
    Keeps R (getAlias host name) := by
  have stored : Keeps R (do return ((← get).aliases.get? name).getD .null :
      ScriptM σ ι Value) := .bind hR (.get hR) fun w => .pure hR _
  unfold getAlias
  refine .bind hR (.get hR) fun w => ?_
  cases w.registry.aliases.get? name with
  | none => exact stored
  | some t =>
    refine .bind hR (hh.computedAlias t name) fun v => ?_
    cases v with
    | null => exact stored
    | _ => exact .pure hR _

theorem keeps_asSerial (hh : host.Serves R) (a : Argument) : Keeps R (asSerial host a) := by
  unfold asSerial
  refine .bind hR (.reading hR _) fun p => .bind hR (keeps_getAlias hR hh _) fun v => ?_
  cases v with
  | null => exact .bind hR (.lift hR _) fun n => .pure hR _
  | _ => exact .pure hR _

theorem keeps_isSerial (hh : host.Serves R) (a : Argument) : Keeps R (isSerial host a) := by
  unfold isSerial
  refine .bind hR (.reading hR _) fun e => ?_
  cases e.lexeme with
  | none => exact .pure hR _
  | some t =>
    refine .bind hR (keeps_getAlias hR hh t) fun v => ?_
    cases v with
    | null =>
      simp only
      split
      · exact .pure hR _
      · exact .pure hR _
      · exact .throw hR _
    | _ => exact .pure hR _

theorem keeps_string (a : Argument) : Keeps R (Bundled.string a : ScriptM σ ι String) :=
  .reading hR _

theorem keeps_int (a : Argument) : Keeps R (Bundled.int a : ScriptM σ ι Int) := .reading hR _

theorem keeps_strings (args : List Argument) :
    Keeps R (Bundled.strings args : ScriptM σ ι (List String)) := by
  induction args with
  | nil => exact .pure hR _
  | cons a rest ih =>
    exact .bind hR (keeps_string hR a) fun _ => .bind hR ih fun _ => .pure hR _

theorem keeps_listEntry (hh : host.Serves R) (a : Argument) :
    Keeps R (Bundled.listEntry host a) := by
  unfold Bundled.listEntry
  refine .bind hR (keeps_isSerial hR hh a) fun b => .ite ?_ (.pure hR _)
  exact .bind hR (keeps_asSerial hR hh a) fun n => .bind hR (.lift hR _) fun _ => .pure hR _

/-- A change of the shared lists is slight. -/
theorem pushList_slight {w w' : World σ ι} {name : String} {a : Argument} {front unique : Bool}
    (h : w.pushList name a front unique = .ok w') : R w w' := by
  unfold World.pushList at h
  cases hl : w.requireList name with
  | error fault => simp [hl, Except.map] at h
  | ok items =>
    simp only [hl, Except.map, Except.ok.injEq] at h
    split at h
    · exact h ▸ hR.refl w
    · exact h ▸ hR.slight (.stores ..)

theorem popList_slight {w w' : World σ ι} {name : String} {front : Bool}
    (h : w.popList name front = .ok w') : R w w' := by
  unfold World.popList at h
  cases hl : w.requireList name with
  | error fault => simp [hl, Except.bind] at h
  | ok items =>
    simp only [hl, Except.bind] at h
    split at h
    · exact absurd h (by simp)
    · rw [Except.ok.injEq] at h
      exact h ▸ hR.slight (.stores ..)

theorem keeps_push (hh : host.Serves R) (list value : Argument) (more : List Argument)
    (force : Bool) : Keeps R (Bundled.push host list value more force) := by
  have rest : ∀ front, Keeps R (do
      let entry ← Bundled.listEntry host value
      let name ← Bundled.string list
      set (← reading fun w => w.pushList name entry front force)) := by
    intro front
    refine .bind hR (keeps_listEntry hR hh value) fun entry => ?_
    refine .bind hR (keeps_string hR list) fun name => ?_
    exact .reading_set hR fun w w' h => pushList_slight hR h
  unfold Bundled.push
  cases more with
  | nil => exact .bind hR (.pure hR _) rest
  | cons side _ =>
    exact .bind hR (keeps_string hR side) fun _ => .bind hR (.pure hR _) rest

theorem keeps_pop (list value : Argument) :
    Keeps R (Bundled.pop list value : ScriptM σ ι Unit) := by
  unfold Bundled.pop
  refine .bind hR (keeps_string hR list) fun name => .bind hR (.lift hR _) fun which => ?_
  refine .ite (.reading_set hR fun w w' h => popList_slight hR h) (.modify fun w => ?_)
  unfold World.popListValue
  simp only
  split
  · exact hR.slight (.stores ..)
  · exact hR.refl w

theorem keeps_waitForJournal (hb : ∀ d, Keeps R (timeout d (some .giveUp) : ScriptM σ ι Unit))
    (text : Argument) (more : List Argument) :
    Keeps R (Bundled.waitForJournal text more : ScriptM σ ι Bool) := by
  have rest : ∀ wait : Int, Keeps R (do
      timeout (.whole wait) (some .giveUp)
      return false : ScriptM σ ι Bool) :=
    fun wait => .bind hR (hb _) fun _ => .pure hR _
  unfold Bundled.waitForJournal
  refine .bind hR (keeps_string hR text) fun wanted => .bind hR (.get hR) fun w => ?_
  refine .ite (.pure hR _) ?_
  cases more with
  | nil => exact .bind hR (.pure hR _) rest
  | cons d _ => exact .bind hR (keeps_int hR d) rest

/-- A change of the shared stores that is then reported as done. -/
theorem keeps_store {f : World σ ι → World σ ι} (hf : ∀ w, Slight w (f w)) :
    Keeps R (do modify f; return true : ScriptM σ ι Bool) :=
  .bind hR (.modify fun w => hR.slight (hf w)) fun _ => .pure hR _

/-- The bundled commands keep what the host keeps, and what those that move or suspend keep. -/
theorem keeps_runCommand (hh : host.Serves R) (c : Bundled.Command) (hb : Bundled.KeepsFor R c)
    (args : List Argument) (force : Bool) :
    Keeps R (Bundled.runCommand host c args force) := by
  have text := keeps_string (R := R) hR
  unfold Bundled.runCommand
  split
  case h_1 a rest =>
    exact .bind hR (keeps_strings hR _) fun _ => .bind hR (hh.write _) fun _ => .pure hR _
  case h_2 d _ =>
    exact .bind hR (keeps_int hR d) fun _ => .bind hR (hb _) fun _ => .pure hR _
  case h_3 name serial _ =>
    refine .bind hR (text name) fun _ => .bind hR (keeps_asSerial hR hh serial) fun _ => ?_
    exact keeps_store hR fun w => .stores ..
  case h_4 name _ =>
    exact .bind hR (text name) fun _ =>
      keeps_store hR fun w => .stores ..
  case h_5 name d _ =>
    refine .bind hR (text name) fun _ => .bind hR (keeps_int hR d) fun _ => ?_
    exact .bind hR (keeps_setTimer hR _ _) fun _ => .pure hR _
  case h_6 name _ =>
    exact .bind hR (text name) fun _ =>
      keeps_store hR fun w => .stores ..
  case h_7 name _ =>
    refine .bind hR (text name) fun n => keeps_store hR fun w => ?_
    unfold World.createList
    split
    · exact .refl w
    · exact .stores ..
  case h_8 name _ =>
    exact .bind hR (text name) fun _ =>
      keeps_store hR fun w => .stores ..
  case h_9 name _ =>
    exact .bind hR (text name) fun _ =>
      keeps_store hR fun w => .stores ..
  case h_10 list value more =>
    exact .bind hR (keeps_push hR hh _ _ _ _) fun _ => .pure hR _
  case h_11 list value _ =>
    exact .bind hR (keeps_pop hR _ _) fun _ => .pure hR _
  case h_12 => exact keeps_store hR fun w => .modifyActive w fun _ => rfl
  case h_13 text more => exact keeps_waitForJournal hR hb _ _
  case h_14 serial _ =>
    refine .bind hR (keeps_asSerial hR hh serial) fun v => keeps_store hR fun w => ?_
    refine .modifyActive w fun s => ?_
    split
    · rfl
    · rfl
  case h_15 => exact keeps_store hR fun w => .modifyActive w fun _ => rfl
  case h_16 line _ =>
    exact .bind hR (keeps_int hR line) fun _ => .bind hR (hb _) fun _ => .pure hR _
  case h_17 => exact .bind hR (.modify hb) fun _ => .pure hR _
  case h_18 => exact .fail hR _ _

/-- The bundled queries keep what the host keeps. -/
theorem keeps_runQuery (hh : host.Serves R) (q : Bundled.Query) (args : List Argument) :
    Keeps R (Bundled.runQuery host q args) := by
  have text := keeps_string (R := R) hR
  have look : ∀ f : World σ ι → Value, Keeps R (do return f (← get) : ScriptM σ ι Value) :=
    fun f => .bind hR (.get hR) fun w => .pure hR _
  unfold Bundled.runQuery
  split
  case h_1 name _ =>
    refine .bind hR (text name) fun _ => .bind hR (keeps_getAlias hR hh _) fun v => ?_
    cases v with
    | null => exact .pure hR _
    | _ => exact .pure hR _
  case h_2 name _ =>
    exact .bind hR (text name) fun _ => .bind hR (keeps_timerExpired hR _) fun _ => .pure hR _
  case h_3 name _ => exact .bind hR (text name) fun n => look _
  case h_4 list value _ => exact .bind hR (text list) fun n => look _
  case h_5 name _ => exact .bind hR (text name) fun n => look _
  case h_6 name _ => exact .bind hR (text name) fun n => look _
  case h_7 t _ => exact .bind hR (text t) fun n => look _
  case h_8 serial _ => exact .bind hR (keeps_asSerial hR hh serial) fun v => look _
  case h_9 => exact .pure hR _
  case h_10 => exact .pure hR _
  case h_11 => exact .fail hR _ _

/-! ## Evaluation -/

variable (owner : Nat)

theorem keeps_callExpression (hh : host.Serves R) (h : Handler Bundled.Query ι) (word : String)
    (args : List Argument) (quiet : Bool) : Keeps R (callExpression host h word args quiet) := by
  cases h with
  | bundled q => exact keeps_runQuery hR hh q args
  | host t => exact hh.expression t word args quiet

theorem keeps_expressionHandler? (word : String) :
    Keeps R (expressionHandler? word : ScriptM σ ι (Option (Handler Bundled.Query ι))) :=
  .bind hR (.get hR) fun _ => .pure hR _

theorem keeps_evaluateOperand (hh : host.Serves R) (tokens : List Site) :
    Keeps R (evaluateOperand host owner tokens) := by
  unfold evaluateOperand
  simp only
  split
  · exact .fail hR _ _
  · split
    case h_5 =>
      split
      · exact .pure hR _
      · refine .bind hR (keeps_expressionHandler? hR _) fun h => ?_
        split
        · exact .pure hR _
        · exact .bind hR (keeps_callExpression hR hh _ _ _ _) fun v => .pure hR _
    case h_4 => exact .pure hR _
    case h_6 => exact .fail hR _ _
    all_goals exact .bind hR (.lift hR _) fun v => .pure hR _

theorem keeps_evaluateUnary (hh : host.Serves R) (tokens : List Site) :
    Keeps R (evaluateUnary host owner tokens) := by
  unfold evaluateUnary
  simp only
  split
  · exact .fail hR _ _
  · refine .bind hR (keeps_expressionHandler? hR _) fun h => ?_
    split
    · exact .fail hR _ _
    · exact .bind hR (keeps_callExpression hR hh _ _ _ _) fun v => .lift hR _

theorem keeps_evaluateBinary (hh : host.Serves R) (tokens : List Site) :
    Keeps R (evaluateBinary host owner tokens) := by
  unfold evaluateBinary
  refine .bind hR (keeps_evaluateOperand hR owner hh tokens) fun p => ?_
  obtain ⟨lhs, rest⟩ := p
  cases rest with
  | nil => exact .fail hR _ _
  | cons op rest =>
    refine .ite (.fail hR _ _) ?_
    refine .bind hR (keeps_evaluateOperand hR owner hh _) fun q => ?_
    obtain ⟨rhs, rest⟩ := q
    simp only
    split
    · exact .fail hR _ _
    · exact .lift hR _

theorem keeps_evaluateSimple (hh : host.Serves R) (expr : Site) :
    Keeps R (evaluateSimple host owner expr) := by
  unfold evaluateSimple
  refine .ite (.fail hR _ _) (.ite ?_ ?_)
  · exact keeps_evaluateUnary hR owner hh _
  · exact keeps_evaluateBinary hR owner hh _

/-- The parts of a chain are evaluated in pairs, an operator and an expression. -/
theorem keeps_evaluateRest (hh : host.Serves R) (result : Bool) (parts : List Site) :
    Keeps R (evaluateRest host owner result parts) := by
  induction result, parts using evaluateRest.induct with
  | case1 result =>
    unfold evaluateRest
    exact .pure hR _
  | case2 result op rest h =>
    unfold evaluateRest
    rw [if_pos h]
    exact .fail hR _ _
  | case3 result op h =>
    unfold evaluateRest
    rw [if_neg h]
    exact .fail hR _ _
  | case4 result op h part rest hp ih =>
    unfold evaluateRest
    rw [if_neg h]
    simp only
    rw [if_pos hp]
    exact .bind hR (keeps_evaluateSimple hR owner hh part) fun answer => ih answer
  | case5 result op h part rest hp =>
    unfold evaluateRest
    rw [if_neg h]
    simp only
    rw [if_neg hp]
    exact .fail hR _ _

theorem keeps_evaluate (hh : host.Serves R) (expr : Site) :
    Keeps R (evaluate host owner expr) := by
  induction expr using evaluate.induct with
  | case1 expr h =>
    rw [evaluate, if_pos h]
    exact .fail hR _ _
  | case2 expr h hl hf =>
    rw [evaluate, if_neg h, if_pos hl]
    split
    · exact .fail hR _ _
    · rename_i first hs
      exact absurd (hs.symm.trans hf) (by simp)
  | case3 expr h hl first hf _ ih =>
    rw [evaluate, if_neg h, if_pos hl]
    split
    · exact .fail hR _ _
    · rename_i first' hs
      have : first' = first := Option.some.inj (hs.symm.trans hf)
      subst this
      exact .bind hR ih fun result => keeps_evaluateRest hR owner hh result _
  | case4 expr h hl =>
    rw [evaluate, if_neg h, if_neg hl]
    exact keeps_evaluateSimple hR owner hh expr

/-- The guard of a statement keeps what the host keeps. -/
theorem keeps_evaluateGuard (hh : host.Serves R) (keyword : Site) :
    Keeps R (evaluateGuard host owner keyword) := by
  unfold evaluateGuard
  split
  · exact .fail hR _ _
  · exact keeps_evaluate hR owner hh _

/-! ## Commands -/

theorem keeps_callCommand (hh : host.Serves R)
    (hc : ∀ t word args quiet force, Keeps R (host.command t word args quiet force))
    (h : Handler Bundled.Command ι)
    (hb : ∀ c, h = .bundled c → Bundled.KeepsFor R c) (word : String)
    (args : List Argument) (marks : Marks) : Keeps R (callCommand host h word args marks) := by
  cases h with
  | bundled c => exact keeps_runCommand hR hh c (hb c rfl) args _
  | host t => exact .bind hR (hc _ _ _ _ _) fun v => .pure hR _

omit hR in
/-- A command fails before anything is done, or it calls the handler of its word. -/
theorem executeCommand_cases (host : Host σ ι) (i : Nat) (tokens : List Site) (w : World σ ι) :
    (∃ fault, executeCommand host i tokens w = .error fault w) ∨
    ∃ site word rest h args, keyword? (takeMarks {} tokens).2 = some (site, word, rest) ∧
      w.registry.commands.get? word = some h ∧ takeArguments i rest = (args, []) ∧
      executeCommand host i tokens w =
        callCommand host h word args (takeMarks {} tokens).1 w := by
  unfold executeCommand
  simp only
  cases hk : keyword? (takeMarks {} tokens).2 with
  | none => exact .inl ⟨_, rfl⟩
  | some k =>
    obtain ⟨site, word, rest⟩ := k
    simp only
    rw [get_bind]
    cases hg : w.registry.commands.get? word with
    | none => exact .inl ⟨_, rfl⟩
    | some h =>
      cases hrest : takeArguments i rest with
      | mk args left =>
        cases left with
        | cons extra _ => exact .inl ⟨_, rfl⟩
        | nil => exact .inr ⟨site, word, rest, h, args, rfl, hg, hrest, rfl⟩

/-- In a world, a command keeps what the host keeps, and what the bundled command of its word keeps
if it is one. -/
theorem after_executeCommand (hh : host.Serves R)
    (hc : ∀ t word args quiet force, Keeps R (host.command t word args quiet force)) {i : Nat}
    {tokens : List Site} {w : World σ ι}
    (hb : ∀ site word rest args c,
      keyword? (takeMarks {} tokens).2 = some (site, word, rest) →
      w.registry.commands.get? word = some (.bundled c) →
      takeArguments i rest = (args, []) → Bundled.KeepsFor R c) :
    R w ((executeCommand host i tokens).after w) := by
  rcases executeCommand_cases host i tokens w with
    ⟨fault, he⟩ | ⟨site, word, rest, h, args, hk, hg, hrest, he⟩
  · rw [after_of_error he]
    exact hR.refl w
  · have hcalled : Keeps R (callCommand host h word args (takeMarks {} tokens).1) :=
      keeps_callCommand hR hh hc h
        (fun c hbundled => hb site word rest args c hk (hbundled ▸ hg) hrest) word _ _
    rw [after_congr he]
    exact hcalled w

/-- A command keeps what the host and the moving bundled commands keep. -/
theorem keeps_executeCommand (hh : host.Serves R) (hb : Bundled.Keeps R)
    (hc : ∀ t word args quiet force, Keeps R (host.command t word args quiet force))
    (i : Nat) (tokens : List Site) : Keeps R (executeCommand host i tokens) :=
  fun _ => after_executeCommand hR hh hc fun _ _ _ _ c _ _ _ => hb.keepsFor c

/-! ## Events, rules and the log -/

theorem keeps_notifyFrom (hh : host.Keeps R) (e : Event) (calls position : Nat) :
    Keeps R (notifyFrom host e calls position) := by
  induction calls generalizing position with
  | zero => exact .pure hR _
  | succ calls ih =>
    unfold notifyFrom
    refine .bind hR (.get hR) fun w => ?_
    split
    · exact .pure hR _
    · exact .bind hR (hh.listener _ e) fun _ => ih (position + 1)

theorem keeps_emit (hh : host.Keeps R) (e : Event) : Keeps R (emit host e) := by
  unfold emit
  exact .bind hR (.get hR) fun w => .mapFault _ (keeps_notifyFrom hR hh e _ 0)

theorem keeps_applyRulesFrom (hh : host.Keeps R) (c : StepContext) (calls position : Nat) :
    Keeps R (applyRulesFrom host c calls position) := by
  induction calls generalizing position with
  | zero => exact .pure hR _
  | succ calls ih =>
    unfold applyRulesFrom
    refine .bind hR (.get hR) fun w => ?_
    split
    · exact .pure hR _
    · refine .ite ?_ ?_
      · exact .bind hR (hh.rule _ c) fun _ => ih (position + 1)
      · exact ih (position + 1)

theorem keeps_applyRules (hh : host.Keeps R) (t : Statement) (c : StepContext) :
    Keeps R (applyRules host t c) := by
  unfold applyRules
  exact .bind hR (.get hR) fun w => .mapFault _ (keeps_applyRulesFrom hR hh c _ 0)

theorem keeps_afterStep (hh : host.Keeps R) (i : Nat) (t : Statement) (e : LogEntry) :
    Keeps R (afterStep host i t e) := by
  unfold afterStep
  refine .bind hR (.script hR i) fun s => ?_
  exact .bind hR (keeps_applyRules hR hh t _) fun _ => keeps_emit hR hh _

omit hR in
theorem keeps_logStep (hlog : ∀ w log, R w { w with log }) (i : Nat) (t : Statement) :
    Keeps R (logStep i t : ScriptM σ ι LogEntry) :=
  fun w => hlog w _

theorem keeps_finish (hactive : ∀ w, R w { w with active := none }) (hh : host.Keeps R) (i : Nat) :
    Keeps R (finish host i) := by
  unfold finish
  exact .bind hR (.modify hactive) fun _ => keeps_emit hR hh _

end

/-! ## Suspending scripts and sending them about -/

/-- A relation that allows scripts to be written at will keeps all bundled commands. -/
theorem Bundled.Keeps.of_scripts {R : World σ ι → World σ ι → Prop} (hL : Tolerant R)
    (h : ∀ i f w, R w (w.modifyScript i f)) : Bundled.Keeps R where
  pause d := keeps_pause hL (fun i _ => h i _) d
  wait d := keeps_timeout hL (fun i _ => h i _) d
  goto line := keeps_gotoLine hL fun i w _ _ => h i _ w
  return_ w := by
    unfold World.modifyActive
    split
    · exact h _ _ w
    · exact hL.refl w

/-- A lenient relation that allows every script to be suspended, sent to a line and called back. -/
structure Roams (R : World σ ι → World σ ι → Prop) : Prop extends Lenient R where
  /-- A suspension may begin or end. -/
  suspend : ∀ i {f : Script ι → Script ι}, Script.Suspends f → ∀ w, R w (w.modifyScript i f)
  /-- A script may be sent to a line. -/
  jump : ∀ i w s line, (w.script i).gotoLine? line = some s → R w (w.modifyScript i fun _ => s)
  /-- It may come back from there. -/
  comeBack : ∀ i w, R w (w.modifyScript i Script.returnFromGoto)

/-- Of a script nothing is written but its cursor, its return points and its suspension. -/
def Script.Roves (s s' : Script ι) : Prop :=
  ∃ cursor returns activity deadline callback,
    s' = { s with cursor, returns, activity, deadline, callback }

/-- A lenient relation allows this if it allows all of these to be written. -/
theorem Roams.of_roves (hL : Lenient R)
    (h : ∀ i (f : Script ι → Script ι) w, (w.script i).Roves (f (w.script i)) →
      R w (w.modifyScript i f)) : Roams R where
  toLenient := hL
  suspend i f hf w := by
    obtain ⟨activity, deadline, callback, hs⟩ := hf (w.script i)
    exact h i f w ⟨_, _, activity, deadline, callback, hs⟩
  jump i w s line hs := by
    obtain ⟨t, rfl⟩ := Script.gotoLine?_eq_some hs
    exact h i _ w ⟨_, _, _, _, _, rfl⟩
  comeBack i w := by
    refine h i _ w ?_
    unfold Script.returnFromGoto
    split
    · exact ⟨_, _, _, _, _, rfl⟩
    · exact ⟨_, _, _, _, _, rfl⟩

namespace Roams

variable (hR : Roams R)
include hR

/-- What is allowed for every script is allowed for the active one. -/
theorem modifyActive {f : Script ι → Script ι} (hf : ∀ i w, R w (w.modifyScript i f))
    (w : World σ ι) : R w (w.modifyActive f) := by
  unfold World.modifyActive
  split
  · exact hf _ w
  · exact hR.toTolerant.refl w

theorem gotoScript (i : Nat) (line : Int) : Keeps R (gotoScript i line : ScriptM σ ι Bool) :=
  keeps_gotoScript hR.toTolerant fun w s hs => hR.jump i w s line hs

theorem gotoLine (line : Int) : Keeps R (gotoLine line : ScriptM σ ι Bool) :=
  keeps_gotoLine hR.toTolerant fun i w s hs => hR.jump i w s line hs

theorem pause (d : Duration) : Keeps R (pause d : ScriptM σ ι Unit) :=
  keeps_pause hR.toTolerant (fun i d w => hR.suspend i (Script.suspends_pause d) w) d

theorem timeout (d : Duration) (c : Option (Callback ι)) :
    Keeps R (timeout d c : ScriptM σ ι Unit) :=
  keeps_timeout hR.toTolerant (fun i d w => hR.suspend i (Script.suspends_timeout d c) w) d

theorem bundled : Bundled.Keeps R where
  pause d := hR.pause d
  wait d := hR.timeout d _
  goto line := hR.gotoLine line
  return_ w := hR.modifyActive hR.comeBack w

end Roams

end Cadence
