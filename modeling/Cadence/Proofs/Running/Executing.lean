/-
  EXECUTING — when a tick executes a statement, and which one.

  A tick first decides whether its script gets its chance.  What a running script and one that waits
  before its deadline get is told elsewhere; here is the rest: a script that is asleep, one that
  wakes up, and one whose wait has run out.

  The chance alone does not say which statement is executed, for what stands before a statement may
  still move the script.  `ComesTo` says in which world it is the statement's turn, and `Executes`
  which one it is; it is never more than one (`Executes.unique`), and the chance is enough if
  listeners disturb nothing (`executes_iff`).
-/
import Cadence.Proofs.Running.Operations
import Cadence.Proofs.Running.Undisturbed

namespace Cadence

open ScriptM

section

variable {σ ι : Type} (host : Host σ ι) {i : Nat} {u : World σ ι} {d : Float}

/-! ## The chance of a suspended script -/

/-- A suspended script compares the clock with its deadline. -/
theorem chance_of_deadline (hdeadline : (u.script i).deadline = some d) :
    ((u.script i).activity = .paused → chance host i u =
      (if u.now < d then return .wait
      else do
        modifyScript i Script.unpause
        return .run : ScriptM σ ι Chance) { u with active := some i }) ∧
    ((u.script i).activity = .timingOut → chance host i u =
      (if d ≤ u.now then do
        let callback := (u.script i).callback
        modifyScript i Script.consume
        match callback with
        | none => pure ()
        | some c => if ← ask host c then advance i
        if (← script i).activity = .running then return .run else return .abandon
      else return .run : ScriptM σ ι Chance) { u with active := some i }) := by
  let u₀ : World σ ι := { u with active := some i }
  have hactive : (modify fun w => { w with active := some i } : ScriptM σ ι Unit) u = .ok () u₀ :=
    rfl
  have hscript : ScriptM.script i u₀ = .ok (u.script i) u₀ := rfl
  have hd : deadlineOf i u₀ = .ok d u₀ := deadlineOf_of_some hdeadline
  constructor
  · intro hrest
    unfold chance
    rw [bind_of_ok hactive, bind_of_ok hscript, hrest]
    simp only
    rw [get_bind, bind_of_ok hd]
  · intro hwait
    unfold chance
    rw [bind_of_ok hactive, bind_of_ok hscript, hwait]
    simp only
    rw [bind_of_ok hd, get_bind]
    by_cases hlate : d ≤ u.now
    · rw [if_pos hlate, if_pos hlate, bind_of_ok hscript]
      rfl
    · rw [if_neg hlate, if_neg hlate]

/-- Before its deadline, a script that rests does not get its chance. -/
theorem chance_of_early (hrest : (u.script i).activity = .paused)
    (hdeadline : (u.script i).deadline = some d) (hearly : u.now < d) :
    chance host i u = .ok .wait { u with active := some i } := by
  rw [(chance_of_deadline host hdeadline).1 hrest, if_pos hearly]
  rfl

/-- At its deadline, a script that rests wakes up. -/
theorem chance_of_late (hrest : (u.script i).activity = .paused)
    (hdeadline : (u.script i).deadline = some d) (hlate : ¬ u.now < d) :
    chance host i u =
      .ok .run (({ u with active := some i } : World σ ι).modifyScript i Script.unpause) := by
  rw [(chance_of_deadline host hdeadline).1 hrest, if_neg hlate]
  rfl

/-- Before its deadline, a script that waits gets its chance. -/
theorem chance_of_waiting (hwait : (u.script i).activity = .timingOut)
    (hdeadline : (u.script i).deadline = some d) (hearly : ¬ d ≤ u.now) :
    chance host i u = .ok .run { u with active := some i } := by
  rw [(chance_of_deadline host hdeadline).2 hwait, if_neg hearly]
  rfl

/-- At its deadline, a script whose wait has no callback is abandoned. -/
theorem chance_of_unasked (hi : i < u.scripts.size) (hwait : (u.script i).activity = .timingOut)
    (hdeadline : (u.script i).deadline = some d) (hlate : d ≤ u.now)
    (hcallback : (u.script i).callback = none) :
    chance host i u =
      .ok .abandon (({ u with active := some i } : World σ ι).modifyScript i Script.consume) := by
  let v : World σ ι := ({ u with active := some i } : World σ ι).modifyScript i Script.consume
  have hv : ¬ (v.script i).activity = .running := by
    have hscript : v.script i = (u.script i).consume := World.script_modifyScript_self _ hi
    rw [hscript]
    show ¬ (u.script i).activity = .running
    rw [hwait]
    decide
  rw [(chance_of_deadline host hdeadline).2 hwait, if_pos hlate, hcallback]
  show (ScriptM.script i >>= fun s => if s.activity = .running then return .run else
    return .abandon : ScriptM σ ι Chance) v = _
  rw [script_bind, if_neg hv]
  rfl

/-- At its deadline, a script that waits goes on if its callback says so, and is abandoned if it
still waits after the callback has refused. -/
theorem chance_of_asked {c : Callback ι} {v : World σ ι} {b : Bool}
    (hi : i < v.scripts.size) (hwait : (u.script i).activity = .timingOut)
    (hdeadline : (u.script i).deadline = some d) (hlate : d ≤ u.now)
    (hcallback : (u.script i).callback = some c)
    (hask : ask host c
      (({ u with active := some i } : World σ ι).modifyScript i Script.consume) = .ok b v)
    (hstill : (v.script i).activity = .timingOut) :
    chance host i u =
      if b then .ok .run (v.modifyScript i Script.advance) else .ok .abandon v := by
  have hconsume : (modifyScript i Script.consume : ScriptM σ ι Unit) { u with active := some i } =
      .ok () (({ u with active := some i } : World σ ι).modifyScript i Script.consume) := rfl
  rw [(chance_of_deadline host hdeadline).2 hwait, if_pos hlate, hcallback]
  simp only
  rw [bind_of_ok hconsume, bind_of_ok hask]
  cases b with
  | true =>
    have hadvance : advance i v = .ok () (v.modifyScript i Script.advance) := rfl
    have hrun : ((v.modifyScript i Script.advance).script i).activity = .running := by
      rw [World.script_modifyScript_self _ hi]
      show (v.script i).clearTimeout.activity = _
      rw [Script.clearTimeout, if_pos hstill]
    simp only [if_true]
    rw [bind_of_ok hadvance, script_bind, if_pos hrun]
    rfl
  | false =>
    have hrun : ¬ (v.script i).activity = .running := by
      rw [hstill]
      decide
    simp only [Bool.false_eq_true, if_false]
    rw [script_bind, if_neg hrun]
    rfl

/-! ## Scripts that are asleep -/

/-- A script rests, and its deadline has not come. -/
def Script.Asleep {ι : Type} (s : Script ι) (now : Float) : Prop :=
  s.activity = .paused ∧ ∃ d, s.deadline = some d ∧ now < d

/-- A tick of a script that is asleep makes it the active one and does nothing else. -/
theorem tick_of_asleep (h : (u.script i).Asleep u.now) :
    tick host i u = .ok true { u with active := some i } := by
  obtain ⟨hrest, d, hdeadline, hearly⟩ := h
  rw [tick_eq_chance, bind_of_ok (chance_of_early host hrest hdeadline hearly)]
  rfl

/-! ## The statement -/

/-- A tick comes to execute a statement: its script gets its chance, what stands before the
statement is done, and then the cursor is on the statement. -/
def Executes (i : Nat) (w : World σ ι) (t : Statement) : Prop :=
  ∃ u v s e, chance host i w = .ok .run u ∧ (u.script i).cursor = some s ∧
    (do
      emit host (.beforeStatement i s)
      logStep i s) u = .ok e v ∧
    (v.script i).cursor = some t

/-- A tick comes to a statement `s`: its script gets its chance, `s` is under the cursor, and what
stands before it is done.  Its step is noted as `e`, and `v` is the world in which whatever is under
the cursor then is run. -/
def ComesTo (i : Nat) (w : World σ ι) (s : Statement) (e : LogEntry) (v : World σ ι) : Prop :=
  ∃ u, chance host i w = .ok .run u ∧ (u.script i).cursor = some s ∧
    (do
      emit host (.beforeStatement i s)
      logStep i s) u = .ok e v

variable {host}

/-- What is executed is under the cursor in the world that the tick comes to. -/
theorem executes_iff_comesTo {w : World σ ι} {t : Statement} :
    Executes host i w t ↔
      ∃ s e v, ComesTo host i w s e v ∧ (v.script i).cursor = some t := by
  constructor
  · rintro ⟨u, v, s, e, hchance, hs, hbefore, ht⟩
    exact ⟨s, e, v, ⟨u, hchance, hs, hbefore⟩, ht⟩
  · rintro ⟨s, e, v, ⟨u, hchance, hs, hbefore⟩, ht⟩
    exact ⟨u, v, s, e, hchance, hs, hbefore, ht⟩

/-- A tick comes to one statement at most, in one world. -/
theorem ComesTo.unique {w v v' : World σ ι} {s s' : Statement} {e e' : LogEntry}
    (h : ComesTo host i w s e v) (h' : ComesTo host i w s' e' v') : s = s' ∧ e = e' ∧ v = v' := by
  obtain ⟨u, hchance, hs, hbefore⟩ := h
  obtain ⟨u', hchance', hs', hbefore'⟩ := h'
  cases hchance.symm.trans hchance'
  cases hs.symm.trans hs'
  cases hbefore.symm.trans hbefore'
  exact ⟨rfl, rfl, rfl⟩

/-- A tick executes one statement at most. -/
theorem Executes.unique {w : World σ ι} {t t' : Statement} (h : Executes host i w t)
    (h' : Executes host i w t') : t = t' := by
  obtain ⟨_, _, _, hcomes, ht⟩ := executes_iff_comesTo.mp h
  obtain ⟨_, _, _, hcomes', ht'⟩ := executes_iff_comesTo.mp h'
  obtain ⟨-, -, rfl⟩ := hcomes.unique hcomes'
  exact Option.some.inj (ht.symm.trans ht')

/-- If listeners and rules leave the cursor alone, a tick that comes to a statement finds it under
the cursor when its turn comes. -/
theorem ComesTo.same (hs : host.Surrounds (Same Script.cursor i)) {w v : World σ ι}
    {s : Statement} {e : LogEntry} (h : ComesTo host i w s e v) :
    (v.script i).cursor = some s := by
  obtain ⟨u, -, hcursor, hbefore⟩ := h
  obtain ⟨_, u', hemit, hu'⟩ :=
    goes_emit hs.toStepwise (hs.listener · (.beforeStatement i s)) u
  cases (bind_of_ok hemit).symm.trans hbefore
  exact hu'.trans hcursor

/-- If listeners disturb nothing, it is the statement under the cursor when the script gets its
chance. -/
theorem executes_iff (hh : host.Unobtrusive) {w : World σ ι} {t : Statement} :
    Executes host i w t ↔ ∃ u, chance host i w = .ok .run u ∧ (u.script i).cursor = some t := by
  have before : ∀ s, Passes (do
      emit host (.beforeStatement i s)
      logStep i s : ScriptM σ ι LogEntry) :=
    fun s => .bind (passes_emit hh _) fun _ => passes_logStep i s
  constructor
  · rintro ⟨u, v, s, e, hchance, hs, hbefore, ht⟩
    obtain ⟨e', v', hbefore', hv'⟩ := before s u
    rw [hbefore'] at hbefore
    cases hbefore
    refine ⟨u, hchance, ?_⟩
    rw [← hv'.script i]
    exact ht
  · rintro ⟨u, hchance, ht⟩
    obtain ⟨e, v, hbefore, hv⟩ := before t u
    refine ⟨u, v, t, e, hchance, ht, hbefore, ?_⟩
    rw [hv.script i]
    exact ht

/-- Who gets his chance executes the statement under the cursor. -/
theorem executes_of_chance (hh : host.Unobtrusive) {w : World σ ι} {t : Statement}
    (hchance : chance host i w = .ok .run u) :
    Executes host i w t ↔ (u.script i).cursor = some t := by
  rw [executes_iff hh]
  constructor
  · rintro ⟨u', hchance', ht⟩
    cases hchance.symm.trans hchance'
    exact ht
  · intro ht
    exact ⟨u, hchance, ht⟩

/-- A tick of a script that is asleep comes to nothing. -/
theorem not_comesTo_of_asleep {s : Statement} {e : LogEntry} {v : World σ ι}
    (h : (u.script i).Asleep u.now) : ¬ ComesTo host i u s e v := by
  rintro ⟨_, hchance, _⟩
  obtain ⟨hrest, d, hdeadline, hearly⟩ := h
  rw [chance_of_early host hrest hdeadline hearly] at hchance
  cases hchance

/-- A script that is asleep executes nothing. -/
theorem not_executes_of_asleep (h : (u.script i).Asleep u.now) (t : Statement) :
    ¬ Executes host i u t := by
  intro hexecutes
  obtain ⟨_, _, _, hcomes, -⟩ := executes_iff_comesTo.mp hexecutes
  exact not_comesTo_of_asleep h hcomes

end

end Cadence
