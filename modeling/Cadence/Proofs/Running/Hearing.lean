/-
  HEARING — what listeners and step rules are told in the course of a tick.

  The hearing host is a host that notes, beside what it keeps, every call of a listener and of a
  rule, in their order (`Host.hearing`).  Apart from that it is the original host, and nothing that
  is called can see the notes.

  1. **Registered** — an event is told to its listeners, and a step to the rules that are due, each
     in the order of the registry (`Registry.told`).

  2. **Courtesy** — a host is COURTEOUS when its listeners, rules and callbacks do not fail and
     register nothing, and none of its handlers ticks a script or suspends one without a deadline
     (`Courteous`).  Commands and expressions may fail in any way.

  3. **The parts of a tick** — what is told by an event, by the rules, by a chance and by the
     statement itself (`Tells`).  Each part that cannot fail is shown to go well.
-/
import Cadence.Proofs.Meaning.Recording
import Cadence.Proofs.Running.Executing

namespace Cadence

open ScriptM

/-- Something that is told: an event, or a step to the rules. -/
inductive Happening where
  /-- An event is told to its listeners. -/
  | event (e : Event)
  /-- A step is told to the rules that are due. -/
  | step (c : StepContext)

/-- A call of a listener, or of a rule. -/
inductive Note (ι : Type) where
  /-- A listener was told of an event. -/
  | heard (t : ι) (e : Event)
  /-- A rule was told of a step. -/
  | ruled (t : ι) (c : StepContext)

section

variable {σ ι α : Type}

/-- Who is told of a happening: the listeners of an event, in their order, or the rules whose number
of steps divides the number of the step, in the order of registration. -/
def Registry.told (r : Registry ι) : Happening → List (Note ι)
  | .event e => (r.listenersOf e.name).map fun l => .heard l.token e
  | .step c => (r.rules.filter fun rule => rule.every ∣ c.index).map fun rule => .ruled rule.token c

/-- The host that notes the calls of listeners and rules. -/
def Host.hearing (host : Host σ ι) : Host (σ × List (Note ι)) ι where
  command token word args quiet force := beside (host.command token word args quiet force)
  expression token word args quiet := beside (host.expression token word args quiet)
  computedAlias token name := beside (host.computedAlias token name)
  listener token e := do
    modify fun w => { w with host := (w.host.1, w.host.2 ++ [.heard token e]) }
    beside (host.listener token e)
  rule token c := do
    modify fun w => { w with host := (w.host.1, w.host.2 ++ [.ruled token c]) }
    beside (host.rule token c)
  callback token := beside (host.callback token)
  write line := beside (host.write line)
  patience := host.patience

/-! ## Deadlines -/

/-- Whoever is suspended has a deadline. -/
def Script.Timed (s : Script ι) : Prop := s.activity ≠ .running → s.deadline.isSome = true

namespace Script.Timed

variable {s : Script ι}

theorem pause (h : s.Timed) (d : Float) : (s.pause d).Timed := by
  unfold Script.pause
  split
  · exact fun _ => rfl
  · exact h

theorem timeout (h : s.Timed) (d : Float) (c : Option (Callback ι)) : (s.timeout d c).Timed := by
  unfold Script.timeout
  split
  · exact fun _ => rfl
  · exact h

theorem unpause (h : s.Timed) : s.unpause.Timed := by
  unfold Script.unpause
  split
  · exact fun hn => absurd rfl hn
  · exact h

theorem clearTimeout (h : s.Timed) : s.clearTimeout.Timed := by
  unfold Script.clearTimeout
  split
  · exact fun hn => absurd rfl hn
  · exact h

theorem returnFromGoto (h : s.Timed) : s.returnFromGoto.Timed := by
  unfold Script.returnFromGoto
  split
  · exact h
  · exact h

end Script.Timed

/-- The end of a rest moves nothing. -/
theorem Script.unpause_cursor (s : Script ι) : s.unpause.cursor = s.cursor := by
  unfold unpause
  split
  · rfl
  · rfl

/-- No step was logged, and scripts that are suspended have not lost their deadlines. -/
structure Unlogged (w w' : World σ ι) : Prop where
  /-- The log is the same. -/
  log : w'.log = w.log
  /-- Deadlines are there. -/
  timed : (∀ i, (w.script i).Timed) → ∀ i, (w'.script i).Timed

theorem Unlogged.refl (w : World σ ι) : Unlogged w w := ⟨rfl, id⟩

theorem Unlogged.trans {u v w : World σ ι} (h : Unlogged u v) (h' : Unlogged v w) :
    Unlogged u w :=
  ⟨h'.log.trans h.log, fun ht => h'.timed (h.timed ht)⟩

/-- An operation goes well, logs no step, and registers nothing. -/
def Polite (x : ScriptM σ ι α) : Prop :=
  ∀ w, ∃ a w', x w = .ok a w' ∧ Unlogged w w' ∧ w'.registry = w.registry

/-- Listeners, rules and callbacks are polite; what is done for commands and expressions may fail
and may register something, but it does not tick. -/
structure Courteous (host : Host σ ι) : Prop where
  /-- Commands do not tick. -/
  command : ∀ t word args quiet force, Keeps Unlogged (host.command t word args quiet force)
  /-- Expressions do not. -/
  expression : ∀ t word args quiet, Keeps Unlogged (host.expression t word args quiet)
  /-- Aliases do not. -/
  computedAlias : ∀ t name, Keeps Unlogged (host.computedAlias t name)
  /-- Taking output does not. -/
  write : ∀ line, Keeps Unlogged (host.write line)
  /-- Listeners are polite. -/
  listener : ∀ t e, Polite (host.listener t e)
  /-- Rules are. -/
  rule : ∀ t c, Polite (host.rule t c)
  /-- Callbacks are. -/
  callback : ∀ t, Polite (host.callback t)

/-! ## What is told -/

/-- No step was logged, and nothing was told. -/
structure Unheard (w w' : World (σ × List (Note ι)) ι) : Prop extends Unlogged w w' where
  /-- Nothing was noted. -/
  notes : w'.host.2 = w.host.2

/-- No step was logged and nothing registered, and the listeners and rules were told something. -/
structure Tells (n : List (Note ι)) (w w' : World (σ × List (Note ι)) ι) : Prop
    extends Unlogged w w' where
  /-- The registry is the same. -/
  registry : w'.registry = w.registry
  /-- It was noted. -/
  notes : w'.host.2 = w.host.2 ++ n

section

variable {u v w : World (σ × List (Note ι)) ι} {n m : List (Note ι)}

theorem Tells.refl (w : World (σ × List (Note ι)) ι) : Tells [] w w :=
  ⟨.refl w, rfl, (List.append_nil _).symm⟩

theorem Tells.trans (h : Tells n u v) (h' : Tells m v w) : Tells (n ++ m) u w where
  toUnlogged := h.toUnlogged.trans h'.toUnlogged
  registry := h'.registry.trans h.registry
  notes := by rw [h'.notes, h.notes, List.append_assoc]

/-- What says nothing may stand in front. -/
theorem Tells.after (h : Tells [] u v) (h' : Tells m v w) : Tells m u w := h.trans h'

theorem unlogged_modifyScript (i : Nat) {f : Script ι → Script ι} (w : World σ ι)
    (hf : (w.script i).Timed → (f (w.script i)).Timed) : Unlogged w (w.modifyScript i f) := by
  refine ⟨rfl, fun ht j => ?_⟩
  rw [World.script_modifyScript]
  split
  · rename_i hij
    exact hij.1 ▸ hf (ht i)
  · exact ht j

theorem unheard_modifyScript (i : Nat) {f : Script ι → Script ι}
    (w : World (σ × List (Note ι)) ι) (hf : (w.script i).Timed → (f (w.script i)).Timed) :
    Unheard w (w.modifyScript i f) :=
  ⟨unlogged_modifyScript i w hf, rfl⟩

theorem tells_modifyScript (i : Nat) {f : Script ι → Script ι}
    (w : World (σ × List (Note ι)) ι) (hf : (w.script i).Timed → (f (w.script i)).Timed) :
    Tells [] w (w.modifyScript i f) :=
  ⟨unlogged_modifyScript i w hf, rfl, (List.append_nil _).symm⟩

theorem tells_active (active : Option Nat) (w : World (σ × List (Note ι)) ι) :
    Tells [] w { w with active } :=
  ⟨⟨rfl, id⟩, rfl, (List.append_nil _).symm⟩

end

/-! ## Beside the notes -/

/-- What the original host keeps, it keeps beside the notes. -/
theorem unheard_beside {x : ScriptM σ ι α} (hx : Keeps Unlogged x) :
    Keeps Unheard (beside x : ScriptM (σ × List (Note ι)) ι α) := by
  intro w
  have h := hx (w.withHost w.host.1)
  rw [after_beside]
  exact ⟨⟨h.log, h.timed⟩, rfl⟩

/-- What is polite is polite beside the notes. -/
theorem tells_beside {x : ScriptM σ ι α} (hx : Polite x) (w : World (σ × List (Note ι)) ι) :
    ∃ a w', (beside x : ScriptM (σ × List (Note ι)) ι α) w = .ok a w' ∧ Tells [] w w' := by
  obtain ⟨a, u, hu, hlog, hregistry⟩ := hx (w.withHost w.host.1)
  exact ⟨a, u.withHost (u.host, w.host.2), beside_of_ok hu, ⟨hlog.log, hlog.timed⟩, hregistry,
    (List.append_nil _).symm⟩

/-- What goes well and leaves something of a script as it was does so beside the notes. -/
theorem goes_beside {β : Type} {tells : Script ι → β} {i : Nat} {x : ScriptM σ ι α}
    (hx : Goes (Same tells i) x) :
    Goes (Same tells i) (beside x : ScriptM (σ × List (Note ι)) ι α) := by
  intro w
  obtain ⟨a, u, hu, hsame⟩ := hx (w.withHost w.host.1)
  exact ⟨a, u.withHost (u.host, w.host.2), beside_of_ok hu, hsame⟩

/-- Listeners and rules leave of a script what they leave without the notes. -/
theorem Host.Surrounds.hearing {β : Type} {tells : Script ι → β} {i : Nat} {host : Host σ ι}
    (hs : host.Surrounds (Same tells i)) : host.hearing.Surrounds (Same tells i) where
  refl _ := rfl
  trans h h' := h'.trans h
  listener t e := fun w =>
    goes_beside (hs.listener t e) { w with host := (w.host.1, w.host.2 ++ [.heard t e]) }
  rule t c := fun w =>
    goes_beside (hs.rule t c) { w with host := (w.host.1, w.host.2 ++ [.ruled t c]) }
  logged _ _ := rfl
  activated _ _ := rfl

variable {host : Host σ ι} (hh : Courteous host)
include hh

/-- A call of a listener is noted. -/
theorem listener_told (t : ι) (e : Event) (w : World (σ × List (Note ι)) ι) :
    ∃ w', host.hearing.listener t e w = .ok () w' ∧ Tells [.heard t e] w w' := by
  obtain ⟨_, w', hw', htells⟩ := tells_beside (hh.listener t e)
    { w with host := (w.host.1, w.host.2 ++ [.heard t e]) }
  exact ⟨w', hw', ⟨htells.log, htells.timed⟩, htells.registry,
    htells.notes.trans (List.append_nil _)⟩

/-- So is one of a rule. -/
theorem rule_told (t : ι) (c : StepContext) (w : World (σ × List (Note ι)) ι) :
    ∃ w', host.hearing.rule t c w = .ok () w' ∧ Tells [.ruled t c] w w' := by
  obtain ⟨_, w', hw', htells⟩ := tells_beside (hh.rule t c)
    { w with host := (w.host.1, w.host.2 ++ [.ruled t c]) }
  exact ⟨w', hw', ⟨htells.log, htells.timed⟩, htells.registry,
    htells.notes.trans (List.append_nil _)⟩

/-! ## Events and rules -/

/-- The listeners from a position on are told of an event, if there are calls enough. -/
theorem notifyFrom_told (e : Event) (calls position : Nat) {w : World (σ × List (Note ι)) ι}
    (hcalls : (w.registry.listenersOf e.name).length ≤ position + calls) :
    ∃ w', notifyFrom host.hearing e calls position w = .ok () w' ∧
      Tells (((w.registry.listenersOf e.name).drop position).map fun l => .heard l.token e) w w' := by
  induction calls generalizing position w with
  | zero =>
    rw [List.drop_eq_nil_of_le (by omega)]
    exact ⟨w, rfl, .refl w⟩
  | succ calls ih =>
    unfold notifyFrom
    rw [get_bind]
    cases hl : (w.registry.listenersOf e.name)[position]? with
    | none =>
      rw [List.drop_eq_nil_of_le (List.getElem?_eq_none_iff.mp hl)]
      exact ⟨w, rfl, .refl w⟩
    | some l =>
      obtain ⟨u, hu, htold⟩ := listener_told hh l.token e w
      have hsame : u.registry.listenersOf e.name = w.registry.listenersOf e.name := by
        rw [htold.registry]
      obtain ⟨w', hw', hrest⟩ := ih (position + 1) (w := u) (by rw [hsame]; omega)
      obtain ⟨hlt, hget⟩ := List.getElem?_eq_some_iff.mp hl
      refine ⟨w', (bind_of_ok hu).trans hw', ?_⟩
      rw [List.drop_eq_getElem_cons hlt, hget]
      rw [hsame] at hrest
      exact htold.trans hrest

/-- **An event is told to its listeners**, to each of them once and in their order. -/
theorem emit_told (e : Event) (w : World (σ × List (Note ι)) ι) :
    ∃ w', emit host.hearing e w = .ok () w' ∧ Tells (w.registry.told (.event e)) w w' := by
  obtain ⟨w', hw', htold⟩ := notifyFrom_told hh e
    ((w.registry.listenersOf e.name).length + host.hearing.patience) 0 (w := w) (by omega)
  refine ⟨w', ?_, htold⟩
  unfold emit
  rw [get_bind, mapFault, hw']

/-- So are the rules from a position on that are due. -/
theorem applyRulesFrom_told (c : StepContext) (calls position : Nat)
    {w : World (σ × List (Note ι)) ι} (hcalls : w.registry.rules.length ≤ position + calls) :
    ∃ w', applyRulesFrom host.hearing c calls position w = .ok () w' ∧
      Tells (((w.registry.rules.drop position).filter fun rule => rule.every ∣ c.index).map
        fun rule => .ruled rule.token c) w w' := by
  induction calls generalizing position w with
  | zero =>
    rw [List.drop_eq_nil_of_le (by omega)]
    exact ⟨w, rfl, .refl w⟩
  | succ calls ih =>
    unfold applyRulesFrom
    rw [get_bind]
    cases hr : w.registry.rules[position]? with
    | none =>
      rw [List.drop_eq_nil_of_le (List.getElem?_eq_none_iff.mp hr)]
      exact ⟨w, rfl, .refl w⟩
    | some r =>
      obtain ⟨hlt, hget⟩ := List.getElem?_eq_some_iff.mp hr
      rw [List.drop_eq_getElem_cons hlt, hget]
      by_cases hdue : r.every ∣ c.index
      · -- the rule is due
        obtain ⟨u, hu, htold⟩ := rule_told hh r.token c w
        obtain ⟨w', hw', hrest⟩ := ih (position + 1) (w := u) (by rw [htold.registry]; omega)
        rw [List.filter_cons_of_pos (by simpa using hdue), List.map_cons]
        rw [htold.registry] at hrest
        refine ⟨w', ?_, htold.trans hrest⟩
        simp only [Nat.mod_eq_zero_of_dvd hdue, if_true]
        exact (bind_of_ok hu).trans hw'
      · obtain ⟨w', hw', hrest⟩ := ih (position + 1) (w := w) (by omega)
        rw [List.filter_cons_of_neg (by simpa using hdue)]
        have hmod : ¬ c.index % r.every = 0 := fun h => hdue (Nat.dvd_of_mod_eq_zero h)
        simp only [hmod, if_false]
        exact ⟨w', hw', hrest⟩

/-- **A step is told to the rules that are due**, in their order. -/
theorem applyRules_told (t : Statement) (c : StepContext) (w : World (σ × List (Note ι)) ι) :
    ∃ w', applyRules host.hearing t c w = .ok () w' ∧ Tells (w.registry.told (.step c)) w w' := by
  obtain ⟨w', hw', htold⟩ := applyRulesFrom_told hh c
    (w.registry.rules.length + host.hearing.patience) 0 (w := w) (by omega)
  refine ⟨w', ?_, htold⟩
  unfold applyRules
  rw [get_bind, mapFault, hw']

/-- The end of a script is an event. -/
theorem finish_told (i : Nat) (w : World (σ × List (Note ι)) ι) :
    ∃ w', finish host.hearing i w = .ok () w' ∧
      Tells (w.registry.told (.event (.scriptEnd i))) w w' := by
  obtain ⟨w', hw', htold⟩ := emit_told hh (.scriptEnd i) { w with active := none }
  exact ⟨w', hw', (tells_active none w).after htold⟩

/-! ## The statement -/

omit hh

theorem unheard_tolerant : Tolerant (Unheard (σ := σ) (ι := ι)) where
  trans h h' := ⟨h.toUnlogged.trans h'.toUnlogged, h'.notes.trans h.notes⟩
  slight h := by
    refine ⟨⟨h.log, fun ht i hn => ?_⟩, congrArg Prod.snd h.host⟩
    have hactivity := h.same Script.activity (fun _ => rfl) i
    have hdeadline := h.same Script.deadline (fun _ => rfl) i
    unfold Same at hactivity hdeadline
    rw [hdeadline]
    exact ht i (hactivity ▸ hn)

theorem unheard_steers (i : Nat) : Steers (Unheard (σ := σ) (ι := ι)) i where
  toTolerant := unheard_tolerant
  place w _ _ := unheard_modifyScript i w fun h => h
  settle w := unheard_modifyScript i w fun h => h.clearTimeout

theorem unheard_bundled : Bundled.Keeps (Unheard (σ := σ) (ι := ι)) where
  pause := keeps_pause unheard_tolerant fun i d w => unheard_modifyScript i w fun h => h.pause d
  wait := keeps_timeout unheard_tolerant fun i d w =>
    unheard_modifyScript i w fun h => h.timeout d _
  goto _ := keeps_gotoLine unheard_tolerant fun i w s hs => by
    obtain ⟨t, rfl⟩ := Script.gotoLine?_eq_some hs
    exact unheard_modifyScript i w fun h => h
  return_ w := by
    unfold World.modifyActive
    split
    · exact unheard_modifyScript _ w fun h => h.returnFromGoto
    · exact unheard_tolerant.refl w

/-- Nothing is told in the course of a statement, whether it fails or not. -/
theorem unheard_executeNext (hh : Courteous host) (i : Nat) :
    Keeps Unheard (executeNext host.hearing i) := by
  have hserves : host.hearing.Serves Unheard :=
    ⟨fun t word args quiet => unheard_beside (hh.expression t word args quiet),
      fun t name => unheard_beside (hh.computedAlias t name),
      fun line => unheard_beside (hh.write line)⟩
  exact keeps_executeNext (unheard_steers i) hserves unheard_bundled
    fun t word args quiet force => unheard_beside (hh.command t word args quiet force)

/-! ## The chance -/

/-- A script waits, and its deadline has come. -/
def Script.Overdue (s : Script ι) (now : Float) : Prop :=
  s.activity = .timingOut ∧ ∃ d, s.deadline = some d ∧ d ≤ now

/-- Why a script gets its chance, or does not: it is asleep, or overdue, or its cursor is where it
was. -/
def Chance.Why (s s' : Script ι) (now : Float) : Chance → Prop
  | .wait => s.Asleep now
  | .abandon => s.Overdue now
  | .run => s.Overdue now ∨ s'.cursor = s.cursor

/-- A callback that is asked tells nothing. -/
theorem ask_told (hh : Courteous host) (c : Callback ι) (w : World (σ × List (Note ι)) ι) :
    ∃ b w', ask host.hearing c w = .ok b w' ∧ Tells [] w w' := by
  cases c with
  | giveUp => exact ⟨true, w, rfl, .refl w⟩
  | host t =>
    obtain ⟨v, w', hw', htold⟩ := tells_beside (hh.callback t) w
    exact ⟨v.truthy, w', (bind_of_ok hw').trans rfl, htold⟩

/-- **A chance tells nothing**, and it goes well for a script that has its deadline. -/
theorem chance_told (hh : Courteous host) (i : Nat) {w : World (σ × List (Note ι)) ι}
    (ht : (w.script i).Timed) :
    ∃ c u, chance host.hearing i w = .ok c u ∧ Tells [] w u ∧
      c.Why (w.script i) (u.script i) w.now := by
  have hactive := tells_active (some i) w
  have deadline : (w.script i).activity ≠ .running → ∃ d, (w.script i).deadline = some d :=
    fun h => Option.isSome_iff_exists.mp (ht h)
  cases ha : (w.script i).activity with
  | running => exact ⟨_, _, chance_of_running _ i ha, hactive, .inr rfl⟩
  | paused =>
    obtain ⟨d, hd⟩ := deadline (by rw [ha]; decide)
    by_cases hearly : w.now < d
    · exact ⟨_, _, chance_of_early _ ha hd hearly, hactive, ha, d, hd, hearly⟩
    · refine ⟨_, _, chance_of_late _ ha hd hearly,
        hactive.after (tells_modifyScript i _ fun h => h.unpause), .inr ?_⟩
      exact same_modifyScript i i { w with active := some i } fun s => s.unpause_cursor
  | timingOut =>
    obtain ⟨d, hd⟩ := deadline (by rw [ha]; decide)
    by_cases hlate : d ≤ w.now
    · have hover : (w.script i).Overdue w.now := ⟨ha, d, hd, hlate⟩
      -- the callback may move the script, or even suspend it again
      have verdict : ∀ y : World (σ × List (Note ι)) ι, ∃ c, (do
          if (← script i).activity = .running then return .run else return .abandon :
          ScriptM (σ × List (Note ι)) ι Chance) y = .ok c y ∧
          ∀ s, c.Why (w.script i) s w.now := by
        intro y
        by_cases hy : (y.script i).activity = .running
        · refine ⟨.run, ?_, fun s => .inl hover⟩
          rw [script_bind, if_pos hy]
          rfl
        · refine ⟨.abandon, ?_, fun s => hover⟩
          rw [script_bind, if_neg hy]
          rfl
      let v := ({ w with active := some i } : World (σ × List (Note ι)) ι).modifyScript i
        Script.consume
      have hv : Tells [] w v := hactive.after (tells_modifyScript i _ fun h => h)
      rw [(chance_of_deadline host.hearing hd).2 ha, if_pos hlate]
      have hconsume : (modifyScript i Script.consume : ScriptM (σ × List (Note ι)) ι Unit)
          { w with active := some i } = .ok () v := rfl
      simp only
      rw [bind_of_ok hconsume]
      cases (w.script i).callback with
      | none =>
        obtain ⟨c, hc, hwhy⟩ := verdict v
        exact ⟨c, v, hc, hv, hwhy _⟩
      | some callback =>
        obtain ⟨b, x, hask, hx⟩ := ask_told hh callback v
        simp only
        rw [bind_of_ok hask]
        cases b with
        | true =>
          let y := x.modifyScript i Script.advance
          have hadvance : advance i x = .ok () y := rfl
          have hy : Tells [] x y := tells_modifyScript i _ fun h => h.clearTimeout
          obtain ⟨c, hc, hwhy⟩ := verdict y
          simp only [if_true]
          rw [bind_of_ok hadvance]
          exact ⟨c, y, hc, hv.after (hx.after hy), hwhy _⟩
        | false =>
          obtain ⟨c, hc, hwhy⟩ := verdict x
          exact ⟨c, x, hc, hv.after hx, hwhy _⟩
    · exact ⟨_, _, chance_of_waiting _ ha hd hlate, hactive, .inr rfl⟩

end

end Cadence
