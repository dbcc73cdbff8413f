/-
  TIMERS — each name has a deadline of its own, or none.

  Whether a timer has run out is told once: asking removes it.  Starting a timer asks first, so a
  timer that still runs goes on, and one that has run out is started anew.  What a call does depends
  on the calls before it, therefore, but only on those for the same name.

  1. **A timer by itself** (`TimerOp.act`) — what a call does to a deadline, or to none, when the
     clock reads so and so, and what it answers.

  2. **One call** (`attempt_perform`) — in a world it does just this to the deadline of its name,
     and nothing to any other.

  3. **A run** (`TimerRun`) — any calls for any names; in between the clock may be moved, and
     anything may happen that leaves the timers alone.  By induction over the run each name behaves
     as its timer would by itself (`TimerRun.deadline_eq`, `TimerRun.answer_eq`), and a timer that
     is neither removed nor asked at its deadline stays as it is (`TimerRun.armed`).

  4. **The headline** (`TimerRun.deadlines`) — both together, with what a call finds before the
     deadline, at it and without one.  A duration that is no real cannot be waited for: it is told
     so, and a timer that had run out is gone by then.
-/
import Cadence.Proofs.Numbers.Order
import Cadence.Proofs.Numbers.Range
import Cadence.Proofs.Running.Keeping

namespace Cadence

open ScriptM

/-! ## A timer by itself -/

/-- What is asked of a timer. -/
inductive TimerOp where
  /-- It is started. -/
  | start (d : Duration)
  /-- Has it run out? -/
  | expired
  /-- Is there one? -/
  | known
  /-- It is removed. -/
  | remove

/-- Has the deadline come?  Without one, it counts as if it had. -/
def isDue (now : Float) : Option Float → Bool
  | none => true
  | some deadline => deadline ≤ now

/-- What an operation answers for a timer by itself, and the deadline after it. -/
def TimerOp.act (now : Float) (timer : Option Float) :
    TimerOp → Except Fault (Option Bool) × Option Float
  | .start d =>
    if isDue now timer then
      match d.seconds with
      | .ok s => (.ok none, some (now + s))
      | .error f => (.error (.trouble (.number f)), none)
    else (.ok none, timer)
  | .expired => (.ok (some (isDue now timer)), if isDue now timer then none else timer)
  | .known => (.ok (some timer.isSome), timer)
  | .remove => (.ok none, none)

section

variable {σ ι : Type}

/-- Carries out an operation on the timer of a name; starting and removing answer nothing. -/
def TimerOp.perform (name : String) : TimerOp → ScriptM σ ι (Option Bool)
  | .start d => do
    setTimer name d
    return none
  | .expired => return some (← timerExpired name)
  | .known => return some ((← get).timers.contains name)
  | .remove => do
    modify fun w => w.removeTimer name
    return none

/-! ## One call -/

namespace World

variable {w : World σ ι} {name : String} {deadline : Float}

/-- Without a timer, it counts as run out and nothing changes. -/
theorem timerExpired_of_none (h : w.timers.get? name = none) : w.timerExpired name = (true, w) := by
  unfold timerExpired
  rw [h]

/-- Before the deadline, the timer has not run out and nothing changes. -/
theorem timerExpired_of_early (h : w.timers.get? name = some deadline)
    (hearly : ¬ deadline ≤ w.now) : w.timerExpired name = (false, w) := by
  unfold timerExpired
  rw [h]
  exact if_neg hearly

/-- At the deadline or after it, the timer has run out and is removed. -/
theorem timerExpired_of_late (h : w.timers.get? name = some deadline) (hlate : deadline ≤ w.now) :
    w.timerExpired name = (true, w.removeTimer name) := by
  unfold timerExpired
  rw [h]
  exact if_pos hlate

end World

/-- Only the timer of one name is different. -/
structure OnlyTimer (name : String) (w w' : World σ ι) : Prop where
  /-- The other timers are the same. -/
  others : ∀ other, other ≠ name → w'.timers.get? other = w.timers.get? other
  /-- Nothing else is different. -/
  rest : w' = { w with timers := w'.timers }

theorem OnlyTimer.refl (name : String) (w : World σ ι) : OnlyTimer name w w := ⟨fun _ _ => rfl, rfl⟩

theorem OnlyTimer.removeTimer (name : String) (w : World σ ι) :
    OnlyTimer name w (w.removeTimer name) := by
  refine ⟨fun other hother => ?_, rfl⟩
  show (w.timers.erase name).get? other = _
  rw [Table.get?_erase, if_neg (Ne.symm hother)]

/-- The world with a timer that runs from now for some seconds. -/
def World.arm (w : World σ ι) (name : String) (s : Float) : World σ ι :=
  { w with timers := w.timers.insert name (w.now + s) }

theorem World.deadline_arm (w : World σ ι) (name : String) (s : Float) :
    (w.arm name s).timers.get? name = some (w.now + s) := by
  show (w.timers.insert name (w.now + s)).get? name = _
  rw [Table.get?_insert, if_pos rfl]

theorem OnlyTimer.arm {name : String} {w u : World σ ι} (h : OnlyTimer name w u) (s : Float) :
    OnlyTimer name w (u.arm name s) := by
  refine ⟨fun other hother => ?_, ?_⟩
  · show (u.timers.insert name (u.now + s)).get? other = _
    rw [Table.get?_insert, if_neg (Ne.symm hother), h.others other hother]
  · show { u with timers := u.timers.insert name (u.now + s) } = _
    rw [h.rest]
    rfl

/-- Starts a timer, whether one runs or not. -/
def armTimer (name : String) (d : Duration) : ScriptM σ ι Unit := do
  let s ← seconds d
  modify fun w => w.arm name s

theorem armTimer_of_seconds (name : String) {d : Duration} {s : Float} (h : d.seconds = .ok s)
    (w : World σ ι) : armTimer name d w = .ok () (w.arm name s) := by
  unfold armTimer seconds
  rw [h]
  rfl

theorem armTimer_of_error (name : String) {d : Duration} {f : NumberFault}
    (h : d.seconds = .error f) (w : World σ ι) :
    armTimer name d w = .error (.trouble (.number f)) w := by
  unfold armTimer seconds
  rw [h]
  rfl

/-- To start a timer is to ask whether it has run out, and to start it if it has. -/
theorem setTimer_eq (name : String) (d : Duration) (w : World σ ι) :
    setTimer name d w =
      if (w.timerExpired name).1 then armTimer name d (w.timerExpired name).2 else .ok () w := by
  unfold setTimer
  rw [get_bind]
  cases h : w.timers.get? name with
  | none =>
    rw [World.timerExpired_of_none h, if_pos rfl]
    have hno : ¬ w.timers.contains name = true := by simp [Table.contains, h]
    rw [if_neg hno]
    rfl
  | some deadline =>
    have hyes : w.timers.contains name = true := by simp [Table.contains, h]
    rw [if_pos hyes]
    by_cases hlate : deadline ≤ w.now
    · have hask : timerExpired name w = .ok true (w.removeTimer name) := by
        show (match w.timerExpired name with | (b, u) => EStateM.Result.ok b u) = _
        rw [World.timerExpired_of_late h hlate]
      rw [World.timerExpired_of_late h hlate, if_pos rfl, bind_of_ok hask]
      rfl
    · have hask : timerExpired name w = .ok false w := by
        show (match w.timerExpired name with | (b, u) => EStateM.Result.ok b u) = _
        rw [World.timerExpired_of_early h hlate]
      rw [World.timerExpired_of_early h hlate, if_neg Bool.false_ne_true, bind_of_ok hask]
      rfl

section

variable {w : World σ ι} {name : String} {d : Duration} {s : Float} {f : NumberFault}

/-- A timer that still runs is not started. -/
theorem attempt_start_of_running (h : (w.timerExpired name).1 = false) (d : Duration) :
    attempt ((TimerOp.start d).perform name) w = .ok (.ok none) w := by
  have hset : setTimer name d w = .ok () w := by
    rw [setTimer_eq, if_neg (by rw [h]; exact Bool.false_ne_true)]
  exact attempt_of_ok (bind_of_ok hset)

/-- One that has run out is started, for as long as the duration says. -/
theorem attempt_start_of_seconds (h : (w.timerExpired name).1 = true) (hs : d.seconds = .ok s) :
    attempt ((TimerOp.start d).perform name) w =
      .ok (.ok none) ((w.timerExpired name).2.arm name s) := by
  have hset : setTimer name d w = .ok () ((w.timerExpired name).2.arm name s) := by
    rw [setTimer_eq, if_pos h, armTimer_of_seconds name hs]
  exact attempt_of_ok (bind_of_ok hset)

/-- If the duration is no real the timer is not started; it is gone nevertheless. -/
theorem attempt_start_of_error (h : (w.timerExpired name).1 = true) (hf : d.seconds = .error f) :
    attempt ((TimerOp.start d).perform name) w =
      .ok (.error (.trouble (.number f))) (w.timerExpired name).2 := by
  have hset : setTimer name d w = .error (.trouble (.number f)) (w.timerExpired name).2 := by
    rw [setTimer_eq, if_pos h, armTimer_of_error name hf]
  exact attempt_of_error (bind_of_error hset)

/-- The question is answered by the world, and the answer given. -/
theorem attempt_expired (name : String) (w : World σ ι) :
    attempt (TimerOp.expired.perform name) w =
      .ok (.ok (some (w.timerExpired name).1)) (w.timerExpired name).2 := rfl

end

/-- What a call answers, and the deadline after it, are those of a timer by itself. -/
structure ActsOn (op : TimerOp) (name : String) (w : World σ ι)
    (answer : Except Fault (Option Bool)) (w' : World σ ι) : Prop where
  /-- The answer. -/
  answer_eq : answer = (op.act w.now (w.timers.get? name)).1
  /-- The deadline. -/
  deadline_eq : w'.timers.get? name = (op.act w.now (w.timers.get? name)).2
  /-- Nothing else has happened. -/
  only : OnlyTimer name w w'

/-- To ask is to look at the deadline, and to forget it if it has come. -/
theorem World.timerExpired_spec (w : World σ ι) (name : String) :
    (w.timerExpired name).1 = isDue w.now (w.timers.get? name) ∧
    ((w.timerExpired name).2.timers.get? name =
      if isDue w.now (w.timers.get? name) then none else w.timers.get? name) ∧
    (w.timerExpired name).2.now = w.now ∧ OnlyTimer name w (w.timerExpired name).2 := by
  cases h : w.timers.get? name with
  | none =>
    rw [timerExpired_of_none h]
    exact ⟨rfl, h, rfl, .refl name w⟩
  | some deadline =>
    by_cases hlate : deadline ≤ w.now
    · rw [timerExpired_of_late h hlate]
      have hdue : isDue w.now (some deadline) = true := decide_eq_true hlate
      refine ⟨hdue.symm, ?_, rfl, .removeTimer name w⟩
      show (w.timers.erase name).get? name = _
      rw [Table.get?_erase, if_pos rfl, if_pos hdue]
    · rw [timerExpired_of_early h hlate]
      have hdue : isDue w.now (some deadline) = false := decide_eq_false hlate
      refine ⟨hdue.symm, ?_, rfl, .refl name w⟩
      rw [hdue, if_neg Bool.false_ne_true]
      exact h

/-- **One call** does to its timer what it does to a timer by itself. -/
theorem attempt_perform (op : TimerOp) (name : String) (w : World σ ι) :
    ∃ answer w', attempt (op.perform name) w = .ok answer w' ∧ ActsOn op name w answer w' := by
  obtain ⟨hdue, htimer, hnow, honly⟩ := w.timerExpired_spec name
  cases op with
  | start d =>
    cases h : isDue w.now (w.timers.get? name) with
    | false =>
      refine ⟨_, _, attempt_start_of_running (hdue.trans h) d, ?_, ?_, .refl name w⟩
      · simp [TimerOp.act, h]
      · simp [TimerOp.act, h]
    | true =>
      cases hs : d.seconds with
      | ok s =>
        refine ⟨_, _, attempt_start_of_seconds (hdue.trans h) hs, ?_, ?_, honly.arm s⟩
        · simp [TimerOp.act, h, hs]
        · rw [World.deadline_arm, hnow]
          simp [TimerOp.act, h, hs]
      | error f =>
        refine ⟨_, _, attempt_start_of_error (hdue.trans h) hs, ?_, ?_, honly⟩
        · simp [TimerOp.act, h, hs]
        · rw [htimer]
          simp [TimerOp.act, h, hs]
  | expired =>
    refine ⟨_, _, attempt_expired name w, ?_, htimer, honly⟩
    rw [hdue]
    rfl
  | known => exact ⟨_, _, rfl, rfl, rfl, .refl name w⟩
  | remove =>
    refine ⟨_, _, rfl, rfl, ?_, .removeTimer name w⟩
    show (w.timers.erase name).get? name = none
    rw [Table.get?_erase, if_pos rfl]

/-! ## A run -/

/-- A call that was made. -/
structure TimerCall where
  /-- Whose timer it was for. -/
  name : String
  /-- What was asked. -/
  op : TimerOp
  /-- The reading of the clock. -/
  now : Float
  /-- What was answered. -/
  answer : Except Fault (Option Bool)

/-- A run from a world to another, with the calls that were made on the way, oldest first. -/
inductive TimerRun (w : World σ ι) : List TimerCall → World σ ι → Prop where
  /-- Nothing has happened. -/
  | start : TimerRun w [] w
  /-- Between calls the clock moves, forward or back, and whatever leaves the timers alone may
  happen. -/
  | meanwhile {past : List TimerCall} {u v : World σ ι} (run : TimerRun w past u)
      (htimers : v.timers = u.timers) : TimerRun w past v
  /-- A call is made. -/
  | call {past : List TimerCall} {u v : World σ ι} {answer : Except Fault (Option Bool)}
      (run : TimerRun w past u) (op : TimerOp) (name : String)
      (hcall : attempt (op.perform name) u = .ok answer v) :
      TimerRun w (past ++ [⟨name, op, u.now, answer⟩]) v

/-- What calls leave of a timer by itself. -/
def replay (timer : Option Float) (calls : List TimerCall) : Option Float :=
  calls.foldl (fun timer c => (c.op.act c.now timer).2) timer

/-- The calls for one name. -/
def callsFor (name : String) (calls : List TimerCall) : List TimerCall :=
  calls.filter fun c => c.name = name

theorem replay_snoc (timer : Option Float) (calls : List TimerCall) (c : TimerCall) :
    replay timer (calls ++ [c]) = (c.op.act c.now (replay timer calls)).2 := by
  simp [replay]

theorem callsFor_snoc_self (calls : List TimerCall) (c : TimerCall) :
    callsFor c.name (calls ++ [c]) = callsFor c.name calls ++ [c] := by
  simp [callsFor]

theorem callsFor_snoc_of_ne {name : String} {c : TimerCall} (h : c.name ≠ name)
    (calls : List TimerCall) : callsFor name (calls ++ [c]) = callsFor name calls := by
  simp [callsFor, h]

/-- A call that ended is the call of a timer by itself. -/
theorem acts_of_attempt {op : TimerOp} {name : String} {u v : World σ ι}
    {answer : Except Fault (Option Bool)} (h : attempt (op.perform name) u = .ok answer v) :
    ActsOn op name u answer v := by
  obtain ⟨answer', v', h', hacts⟩ := attempt_perform op name u
  rw [h'] at h
  cases h
  exact hacts

namespace TimerRun

variable {w u v : World σ ι} {past later : List TimerCall}

/-- **The deadline of a name** comes from the calls for this name alone. -/
theorem deadline_eq (run : TimerRun w past u) (name : String) :
    u.timers.get? name = replay (w.timers.get? name) (callsFor name past) := by
  induction run with
  | start => rfl
  | meanwhile _ htimers ih => rw [htimers, ih]
  | @call past u v answer run op other hcall ih =>
    have hacts := acts_of_attempt hcall
    by_cases hname : other = name
    · subst hname
      rw [callsFor_snoc_self past ⟨other, op, u.now, answer⟩, replay_snoc, ← ih]
      exact hacts.deadline_eq
    · rw [callsFor_snoc_of_ne (c := ⟨other, op, u.now, answer⟩) hname, ← ih]
      exact hacts.only.others name (Ne.symm hname)

/-- **Every answer** comes from the earlier calls for the same name. -/
theorem answer_eq (run : TimerRun w past u) {before after : List TimerCall} {c : TimerCall}
    (hpast : past = before ++ c :: after) :
    c.answer =
      (c.op.act c.now (replay (w.timers.get? c.name) (callsFor c.name before))).1 := by
  induction run generalizing before c after with
  | start => simp at hpast
  | meanwhile _ _ ih => exact ih hpast
  | @call past u v answer run op name hcall ih =>
    rcases List.eq_nil_or_concat after with rfl | ⟨rest, last, rfl⟩
    · obtain ⟨rfl, hc⟩ := List.append_inj' hpast rfl
      cases hc
      rw [← run.deadline_eq name]
      exact (acts_of_attempt hcall).answer_eq
    · have hsplit : past ++ [⟨name, op, u.now, answer⟩] = (before ++ c :: rest) ++ [last] := by
        simpa using hpast
      obtain ⟨hpast', -⟩ := List.append_inj' hsplit rfl
      exact ih hpast'

end TimerRun

/-! ## While a deadline is set -/

/-- A call that lets a timer run: it does not remove it, and does not find that its deadline has
come. -/
def TimerOp.LetsRun (deadline now : Float) : TimerOp → Prop
  | .start _ | .expired => ¬ deadline ≤ now
  | .known => True
  | .remove => False

/-- What it answers. -/
def TimerOp.answerWhileRunning : TimerOp → Option Bool
  | .expired => some false
  | .known => some true
  | .start _ | .remove => none

theorem TimerOp.act_of_letsRun {op : TimerOp} {deadline now : Float}
    (h : op.LetsRun deadline now) :
    op.act now (some deadline) = (.ok op.answerWhileRunning, some deadline) := by
  cases op with
  | start d =>
    have hdue : isDue now (some deadline) = false := decide_eq_false h
    simp [act, hdue, answerWhileRunning]
  | expired =>
    have hdue : isDue now (some deadline) = false := decide_eq_false h
    simp [act, hdue, answerWhileRunning]
  | known => rfl
  | remove => exact h.elim

/-- Calls that let the timer of a name run. -/
def Intact (name : String) (deadline : Float) (calls : List TimerCall) : Prop :=
  ∀ c ∈ calls, c.name = name → c.op.LetsRun deadline c.now

/-- **While the timer runs** its deadline stays, and the calls for it find it running. -/
theorem TimerRun.armed {u v : World σ ι} {later : List TimerCall} (run : TimerRun u later v)
    {name : String} {deadline : Float} (h : u.timers.get? name = some deadline)
    (hintact : Intact name deadline later) :
    v.timers.get? name = some deadline ∧
    ∀ c ∈ later, c.name = name → c.answer = .ok c.op.answerWhileRunning := by
  induction run with
  | start => exact ⟨h, fun _ hc => absurd hc List.not_mem_nil⟩
  | meanwhile _ htimers ih =>
    obtain ⟨hdeadline, hanswers⟩ := ih hintact
    exact ⟨htimers ▸ hdeadline, hanswers⟩
  | @call past u' v answer _ op other hcall ih =>
    obtain ⟨hdeadline, hanswers⟩ := ih fun c hc => hintact c (List.mem_append_left _ hc)
    have hacts := acts_of_attempt hcall
    have hlast : other = name → op.LetsRun deadline u'.now :=
      hintact ⟨other, op, u'.now, answer⟩ (List.mem_append_right _ (List.mem_singleton_self _))
    refine ⟨?_, fun c hc hname => ?_⟩
    · by_cases hname : other = name
      · subst hname
        rw [hacts.deadline_eq, hdeadline, TimerOp.act_of_letsRun (hlast rfl)]
      · rw [hacts.only.others name (Ne.symm hname), hdeadline]
    · rcases List.mem_append.mp hc with hold | hnew
      · exact hanswers c hold hname
      · rw [List.mem_singleton] at hnew
        subst hnew
        have hname' : other = name := hname
        subst hname'
        show answer = _
        rw [hacts.answer_eq, hdeadline, TimerOp.act_of_letsRun (hlast rfl)]

/-- What the calls for a name find while a deadline is set. -/
structure Pending (name : String) (deadline : Float) (w : World σ ι) : Prop where
  /-- The deadline. -/
  deadline_eq : w.timers.get? name = some deadline
  /-- There is a timer, before the deadline and after it. -/
  known : attempt (TimerOp.known.perform name) w = .ok (.ok (some true)) w
  /-- Before the deadline it has not run out, and asking changes nothing. -/
  early : w.now < deadline →
    attempt (TimerOp.expired.perform name) w = .ok (.ok (some false)) w
  /-- Nor does starting it before the deadline. -/
  kept : w.now < deadline → ∀ d,
    attempt ((TimerOp.start d).perform name) w = .ok (.ok none) w
  /-- At the deadline or after it the timer has run out, and asking removes it. -/
  late : deadline ≤ w.now →
    attempt (TimerOp.expired.perform name) w = .ok (.ok (some true)) (w.removeTimer name)
  /-- Then it is started anew, for as long as the new duration says. -/
  anew : deadline ≤ w.now → ∀ d s, d.seconds = .ok s →
    attempt ((TimerOp.start d).perform name) w = .ok (.ok none) ((w.removeTimer name).arm name s)
  /-- A duration that is no real is refused then, and the timer is gone. -/
  refused : deadline ≤ w.now → ∀ d f, d.seconds = .error f →
    attempt ((TimerOp.start d).perform name) w =
      .ok (.error (.trouble (.number f))) (w.removeTimer name)

theorem pending {w : World σ ι} {name : String} {deadline : Float}
    (h : w.timers.get? name = some deadline) : Pending name deadline w := by
  have hearly (hbefore : w.now < deadline) : w.timerExpired name = (false, w) :=
    World.timerExpired_of_early h (not_le_of_before hbefore)
  have hlate (hcome : deadline ≤ w.now) : w.timerExpired name = (true, w.removeTimer name) :=
    World.timerExpired_of_late h hcome
  constructor
  case deadline_eq => exact h
  case known =>
    show EStateM.Result.ok (Except.ok (some (w.timers.get? name).isSome)) w = _
    rw [h]
    rfl
  case early =>
    intro hbefore
    rw [attempt_expired, hearly hbefore]
  case kept =>
    intro hbefore d
    exact attempt_start_of_running (congrArg Prod.fst (hearly hbefore)) d
  case late =>
    intro hcome
    rw [attempt_expired, hlate hcome]
  case anew =>
    intro hcome d s hs
    rw [attempt_start_of_seconds (congrArg Prod.fst (hlate hcome)) hs, hlate hcome]
  case refused =>
    intro hcome d f hf
    rw [attempt_start_of_error (congrArg Prod.fst (hlate hcome)) hf, hlate hcome]

/-- What the calls for a name find while none is set. -/
structure Unset (name : String) (w : World σ ι) : Prop where
  /-- There is no timer. -/
  known : attempt (TimerOp.known.perform name) w = .ok (.ok (some false)) w
  /-- It counts as run out, and asking changes nothing. -/
  expired : attempt (TimerOp.expired.perform name) w = .ok (.ok (some true)) w
  /-- It is started, for as long as the duration says. -/
  started : ∀ d s, d.seconds = .ok s →
    attempt ((TimerOp.start d).perform name) w = .ok (.ok none) (w.arm name s)
  /-- A duration that is no real is refused, and nothing changes. -/
  refused : ∀ d f, d.seconds = .error f →
    attempt ((TimerOp.start d).perform name) w = .ok (.error (.trouble (.number f))) w

theorem unset {w : World σ ι} {name : String} (h : w.timers.get? name = none) : Unset name w := by
  have hask : w.timerExpired name = (true, w) := World.timerExpired_of_none h
  constructor
  case known =>
    show EStateM.Result.ok (Except.ok (some (w.timers.get? name).isSome)) w = _
    rw [h]
    rfl
  case expired => rw [attempt_expired, hask]
  case started =>
    intro d s hs
    rw [attempt_start_of_seconds (congrArg Prod.fst hask) hs, hask]
  case refused =>
    intro d f hf
    rw [attempt_start_of_error (congrArg Prod.fst hask) hf, hask]

/-! ## The headline -/

/-- Only a whole number that is too large for the reals makes no duration. -/
theorem Duration.seconds_eq_error_iff {d : Duration} {f : NumberFault} :
    d.seconds = .error f ↔
      (∃ ms : Int, d = .whole ms ∧ Double.firstBeyond ≤ ms.natAbs) ∧ f = .tooLarge := by
  cases d with
  | real ms => simp [seconds, toReal, Except.map]
  | whole ms =>
    have hmap : (Duration.whole ms).seconds = .error f ↔ Double.ofInt? ms = .error f := by
      show (Double.ofInt? ms).map (· / 1000) = .error f ↔ _
      cases Double.ofInt? ms with
      | ok x => simp [Except.map]
      | error g => simp [Except.map]
    rw [hmap, Double.ofInt?_eq_error_iff]
    simp

/-- **Timers over whole runs.**  At the end of a run each name has the deadline, and each of its
calls has had the answer, that the calls for this name alone account for; no call for one name
touches another.  A timer that is due or not there can be started, and from then on, until a call
removes it or finds it due, its deadline stays where it was put: calls before the deadline are
answered accordingly, whatever else the run holds.  A name without a timer counts as run out.  The
one exception is a whole number of milliseconds too large for a real. -/
theorem TimerRun.deadlines {w u : World σ ι} {past : List TimerCall} (run : TimerRun w past u) :
    (∀ name, u.timers.get? name = replay (w.timers.get? name) (callsFor name past)) ∧
    (∀ before c after, past = before ++ c :: after → c.answer =
      (c.op.act c.now (replay (w.timers.get? c.name) (callsFor c.name before))).1) ∧
    (∀ name d s, isDue u.now (u.timers.get? name) = true → d.seconds = .ok s →
      ∃ v, attempt ((TimerOp.start d).perform name) u = .ok (.ok none) v ∧ OnlyTimer name u v ∧
        ∀ later x, TimerRun v later x → Intact name (u.now + s) later →
          (∀ c ∈ later, c.name = name → c.answer = .ok c.op.answerWhileRunning) ∧
          Pending name (u.now + s) x) ∧
    (∀ name, u.timers.get? name = none → Unset name u) ∧
    ∀ d f, Duration.seconds d = .error f ↔
      (∃ ms : Int, d = .whole ms ∧ Double.firstBeyond ≤ ms.natAbs) ∧ f = .tooLarge := by
  refine ⟨run.deadline_eq, fun before c after => run.answer_eq, ?_, fun name => unset,
    fun d f => Duration.seconds_eq_error_iff⟩
  intro name d s hdue hs
  obtain ⟨hask, -, hnow, honly⟩ := u.timerExpired_spec name
  refine ⟨_, attempt_start_of_seconds (hask.trans hdue) hs, honly.arm s, ?_⟩
  intro later x hlater hintact
  have harmed : ((u.timerExpired name).2.arm name s).timers.get? name = some (u.now + s) := by
    rw [World.deadline_arm, hnow]
  obtain ⟨hdeadline, hanswers⟩ := hlater.armed harmed hintact
  exact ⟨hanswers, pending hdeadline⟩

/-- A kitchen with timers, at some time. -/
@[reducible] def kitchenWorld (now : Float) (timers : Table Float) : World Unit Unit where
  host := ()
  now
  timers

/-- The tea is drawing. -/
def teaTimers : Table Float := Table.empty.insert "tea" (1000 + 0.05)

/-- The egg is boiling as well. -/
def eggTimers : Table Float := teaTimers.insert "egg" (1000 + 0.1)

theorem tea_run :
    TimerRun (kitchenWorld 1000 .empty) [⟨"tea", .start (.whole 50), 1000, .ok none⟩]
      (kitchenWorld 1000 teaTimers) :=
  .call .start (.start (.whole 50)) "tea" ((unset rfl).started (.whole 50) 0.05 rfl)

theorem egg_started :
    attempt ((TimerOp.start (.whole 100)).perform "egg") (kitchenWorld 1000 teaTimers) =
      .ok (.ok none) (kitchenWorld 1000 eggTimers) :=
  (unset rfl).started (.whole 100) 0.1 rfl

theorem egg_deadline (now : Float) :
    (kitchenWorld now eggTimers).timers.get? "egg" = some (1000 + 0.1) := rfl

/-- Half way through, the egg is not done. -/
theorem egg_asked :
    TimerRun (kitchenWorld 1000 eggTimers) [⟨"egg", .expired, 1000.05, .ok (some false)⟩]
      (kitchenWorld 1000.2 eggTimers) := by
  have hbefore : (1000.05 : Float) < 1000 + 0.1 := by decide +kernel
  have hwaited : TimerRun (kitchenWorld 1000 eggTimers) [] (kitchenWorld 1000.05 eggTimers) :=
    .meanwhile .start rfl
  have hasked := hwaited.call .expired "egg" ((pending (egg_deadline 1000.05)).early hbefore)
  exact hasked.meanwhile rfl

/-- The egg is started while the tea is drawing, is not done when it is asked for too early, and is
done the next time. -/
theorem deadlines_egg :
    TimerRun (kitchenWorld 1000 .empty) [⟨"tea", .start (.whole 50), 1000, .ok none⟩]
      (kitchenWorld 1000 teaTimers) ∧
    attempt ((TimerOp.start (.whole 100)).perform "egg") (kitchenWorld 1000 teaTimers) =
      .ok (.ok none) (kitchenWorld 1000 eggTimers) ∧
    TimerRun (kitchenWorld 1000 eggTimers) [⟨"egg", .expired, 1000.05, .ok (some false)⟩]
      (kitchenWorld 1000.2 eggTimers) ∧
    attempt (TimerOp.expired.perform "egg") (kitchenWorld 1000.2 eggTimers) =
      .ok (.ok (some true)) ((kitchenWorld 1000.2 eggTimers).removeTimer "egg") := by
  obtain ⟨-, -, harm, -, -⟩ := tea_run.deadlines
  obtain ⟨v, hv, -, hlater⟩ := harm "egg" (.whole 100) 0.1 rfl rfl
  obtain rfl : kitchenWorld 1000 eggTimers = v := by
    have hresult := egg_started.symm.trans hv
    injection hresult
  have hintact : Intact "egg" (1000 + 0.1) [⟨"egg", .expired, 1000.05, .ok (some false)⟩] := by
    intro c hc _
    obtain rfl := List.mem_singleton.mp hc
    show ¬ (1000 + 0.1 : Float) ≤ 1000.05
    decide +kernel
  obtain ⟨-, hpending⟩ := hlater _ _ egg_asked hintact
  have hcome : (1000 + 0.1 : Float) ≤ 1000.2 := by decide +kernel
  exact ⟨tea_run, egg_started, egg_asked, hpending.late hcome⟩

/-- **A duration too large for a real** does not start a timer that is due: it is refused, and the
timer is gone. -/
theorem refused_egg :
    TimerRun (kitchenWorld 1000 teaTimers) [⟨"egg", .start (.whole 100), 1000, .ok none⟩]
      (kitchenWorld 1000.2 eggTimers) ∧
    (kitchenWorld 1000.2 eggTimers).timers.get? "egg" = some (1000 + 0.1) ∧
    (1000 + 0.1 : Float) ≤ 1000.2 ∧
    ∃ w', attempt ((TimerOp.start (.whole (10 ^ 309))).perform "egg")
        (kitchenWorld 1000.2 eggTimers) = .ok (.error (.trouble (.number .tooLarge))) w' ∧
      attempt (TimerOp.known.perform "egg") w' = .ok (.ok (some false)) w' := by
  have hrun : TimerRun (kitchenWorld 1000 teaTimers)
      [⟨"egg", .start (.whole 100), 1000, .ok none⟩] (kitchenWorld 1000 eggTimers) :=
    .call .start (.start (.whole 100)) "egg" egg_started
  have hcome : (1000 + 0.1 : Float) ≤ 1000.2 := by decide +kernel
  have hhuge : (Duration.whole (10 ^ 309)).seconds = .error .tooLarge :=
    Duration.seconds_eq_error_iff.mpr ⟨⟨_, rfl, by decide +kernel⟩, rfl⟩
  have hgone : ((kitchenWorld 1000.2 eggTimers).removeTimer "egg").timers.get? "egg" = none := by
    show (eggTimers.erase "egg").get? "egg" = none
    rw [Table.get?_erase, if_pos rfl]
  exact ⟨hrun.meanwhile rfl, egg_deadline 1000.2, hcome, _,
    (pending (egg_deadline 1000.2)).refused hcome _ _ hhuge, (unset hgone).known⟩

end

end Cadence
