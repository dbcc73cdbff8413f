/-
  CAPPED runs: how many ticks a run takes, how often it sleeps, and how it leaves the world.

  Between two calls of a script a run sleeps once.  `Rounds n` are `n` times a call that is answered
  with yes, and a sleep.  Behind them a run goes on as a run of its own (`Rounds.runFrom`), and it
  ends when a call is answered with no, or with yes when the cap is reached.  So the number of calls
  is the smaller one of two numbers: that of the first call that is answered with no (`firstNo`), and
  that of the last one that the cap allows (`lastCall`).  The crux is the latter: the cap is tested
  behind a call, so no cap spares the FIRST one.

  What is left active is a matter of the last call: a call leaves its script active if it is answered
  with yes, and none if not (`active_of_tick`), unless the host ticks scripts by itself
  (`waits_of_busy`).

  The headline is `run_counts`.
-/
import Mathlib.Data.ENat.Lattice
import Cadence.Proofs.Meaning.Ceasing
import Cadence.Proofs.Running.Resting

namespace Cadence

open ScriptM

variable {σ ι : Type}

/-! ## The active script -/

/-- The same script is active, or none. -/
def SameActive (w w' : World σ ι) : Prop := w'.active = w.active

theorem sameActive_steers (i : Nat) : Steers (SameActive (σ := σ) (ι := ι)) i where
  trans h k := Eq.trans k h
  slight h := h.active
  place _ _ _ := rfl
  settle _ := rfl

theorem sameActive_bundled : Bundled.Keeps (SameActive (σ := σ) (ι := ι)) :=
  .of_scripts (sameActive_steers 0).toTolerant fun _ _ _ => rfl

/-- A script that was active is so still. -/
def StaysActive (i : Nat) (w w' : World σ ι) : Prop := w.active = some i → w'.active = some i

theorem staysActive_tolerant (i : Nat) : Tolerant (StaysActive (σ := σ) (ι := ι) i) where
  trans h k hw := k (h hw)
  slight h hw := h.active.trans hw

/-- While a script is active, an operation that answers with yes leaves it active, and one that
answers with no leaves none. -/
def Leaves (i : Nat) (x : ScriptM σ ι Bool) : Prop :=
  ∀ w b w', w.active = some i → x w = .ok b w' → w'.active = if b then some i else none

namespace Leaves

variable {α : Type} {i : Nat}

theorem bind {x : ScriptM σ ι α} {f : α → ScriptM σ ι Bool} (hx : Keeps SameActive x)
    (hf : ∀ a, Leaves i (f a)) : Leaves i (x >>= f) := by
  intro w b w' hw h
  obtain ⟨a, u, hu, hw'⟩ := bind_ok h
  have hsame : u.active = w.active := by
    have := hx w
    rwa [after_of_ok hu] at this
  exact hf a u b w' (hsame.trans hw) hw'

theorem yes : Leaves i (pure true : ScriptM σ ι Bool) := by
  intro w b w' hw h
  cases h
  exact hw

theorem throw (fault : Fault) : Leaves i (throw fault : ScriptM σ ι Bool) :=
  fun _ _ _ _ h => nomatch h

end Leaves

section

variable {host : Host σ ι} (hh : host.KeepsThroughout SameActive) (i : Nat)
include hh

/-- Whoever finishes leaves no script active. -/
theorem leaves_finish : Leaves i (do finish host i; return false) := by
  intro w b w' hw h
  obtain ⟨_, u, hfinish, h⟩ := bind_ok h
  cases h
  have hsame := keeps_emit (sameActive_steers i).toTolerant hh.around (.scriptEnd i)
    { w with active := none }
  have hemit : emit host (.scriptEnd i) { w with active := none } = .ok () w' := hfinish
  rw [after_of_ok hemit] at hsame
  exact hsame

theorem leaves_stepStatement (t : Statement) : Leaves i (stepStatement host i t) := by
  have hR := sameActive_steers (σ := σ) (ι := ι) i
  have hL := hR.toTolerant
  unfold stepStatement
  have hnext := keeps_executeNext hR hh.around.serves sameActive_bundled hh.command
  refine .bind (keeps_emit hL hh.around _) fun _ => ?_
  refine .bind (keeps_logStep (fun _ _ => rfl) i t) fun e => .bind (.attempt hnext) fun r => ?_
  split
  · exact .bind (keeps_emit hL hh.around _) fun _ => .throw _
  · rename_i alive
    refine .bind (keeps_afterStep hL hh.around i t e) fun _ => ?_
    cases alive with
    | true => exact .yes
    | false => exact leaves_finish hh i

theorem leaves_step : Leaves i (step host i) := by
  have hL := (sameActive_steers (σ := σ) (ι := ι) i).toTolerant
  unfold step
  refine .bind (.script hL i) fun s => ?_
  split
  · exact leaves_stepStatement hh i _
  · exact leaves_finish hh i

/-- **A call leaves its script active if it is answered with yes, and none if not.** -/
theorem active_of_tick {w w' : World σ ι} {b : Bool} (h : tick host i w = .ok b w') :
    w'.active = if b then some i else none := by
  -- the call begins with making its script the active one, so it may as well be that already
  have hcall : tick host i { w with active := some i } = .ok b w' := h
  rw [tick_eq_chance] at hcall
  obtain ⟨c, u, hchance, hrest⟩ := bind_ok hcall
  have hu : u.active = some i :=
    (keeps_chance host i (staysActive_tolerant i) (fun _ _ => rfl) (fun _ hw => hw)
      (fun _ hw => hw) (fun _ hw => hw)
      fun t => (hh.callback t).mono fun _ _ hsame hw => Eq.trans hsame hw).ok hchance rfl
  cases c with
  | wait =>
    cases hrest
    exact hu
  | abandon => exact leaves_finish hh i u b w' hu hrest
  | run => exact leaves_step hh i u b w' hu hrest

end

/-! ## Calls and sleeps -/

section

variable (host : Host σ ι) (i : Nat) (rest : Duration) (sleep : Float → ScriptM σ ι Unit)

/-- So many times a call that is answered with yes, and a sleep. -/
inductive Rounds : Nat → World σ ι → World σ ι → Prop where
  /-- Nothing is done. -/
  | none (w : World σ ι) : Rounds 0 w w
  /-- A call, a sleep, and what comes later. -/
  | more {n : Nat} {w u v w' : World σ ι} (call : tick host i w = .ok true u)
      (slept : nap rest sleep u = .ok () v) (later : Rounds n v w') : Rounds (n + 1) w w'

/-- The number of the first call that would be answered with no; infinite if there is none. -/
noncomputable def firstNo (w : World σ ι) : ℕ∞ :=
  sInf {m : ℕ∞ | ∃ n u v, m = (n + 1 : ℕ) ∧ Rounds host i rest sleep n w u ∧
    tick host i u = .ok false v}

/-- The number of the last call that a cap allows. -/
def lastCall (cap : Option Int) : ℕ∞ :=
  match cap with
  | none => ⊤
  | some k => (max k.toNat 1 : ℕ)

end

/-- The cap is reached behind a call when this is the last call that it allows, or a later one. -/
theorem capReached_iff {cap : Option Int} {n : Nat} :
    capReached cap (n + 1) = true ↔ lastCall cap ≤ (n + 1 : ℕ) := by
  cases cap with
  | none => simp [capReached, lastCall]
  | some k =>
    simp only [capReached, lastCall, decide_eq_true_eq, Nat.cast_le]
    omega

variable {host : Host σ ι} {i : Nat} {rest : Duration} {sleep : Float → ScriptM σ ι Unit}

/-! ## Runs from the outside -/

section

variable {cap : Option Int} {ticks more : Nat} {w u v : World σ ι}

/-- A call that is answered with yes before the cap is followed by a sleep. -/
theorem runFrom_of_yes (hcall : tick host i w = .ok true u)
    (hcap : ¬ lastCall cap ≤ (ticks + 1 : ℕ)) :
    runFrom host i rest cap sleep (more + 1) ticks w =
      (nap rest sleep >>= fun _ => runFrom host i rest cap sleep more (ticks + 1)) u := by
  have hgo : runTick host i cap (ticks + 1) w = .ok true u := by
    rw [runTick, bind_of_ok hcall, if_neg (by decide), if_neg fun h => hcap (capReached_iff.mp h)]
    rfl
  rw [runFrom, bind_of_ok hgo, if_pos rfl, nap]
  by_cases hrest : rest.positive = true
  · simp only [if_pos hrest, bind_assoc]
  · simp only [if_neg hrest]
    rfl

/-- One that is answered with no is the last. -/
theorem runFrom_of_no (hcall : tick host i w = .ok false u) :
    runFrom host i rest cap sleep (more + 1) ticks w = .ok (some (ticks + 1)) u := by
  have hend : runTick host i cap (ticks + 1) w = .ok false u := by
    rw [runTick, bind_of_ok hcall]
    rfl
  rw [runFrom, bind_of_ok hend]
  rfl

/-- So is one that is answered with yes when the cap is reached; the active script is stopped. -/
theorem runFrom_of_cap (hcall : tick host i w = .ok true u)
    (hcap : lastCall cap ≤ (ticks + 1 : ℕ)) :
    runFrom host i rest cap sleep (more + 1) ticks w = .ok (some (ticks + 1)) u.stopActive := by
  have hend : runTick host i cap (ticks + 1) w = .ok false u.stopActive := by
    rw [runTick, bind_of_ok hcall, if_neg (by decide), if_pos (capReached_iff.mpr hcap)]
    rfl
  rw [runFrom, bind_of_ok hend]
  rfl

/-- A call that fails makes the run fail. -/
theorem runFrom_of_error {fault : Fault} (hcall : tick host i w = .error fault u) :
    runFrom host i rest cap sleep (more + 1) ticks w = .error fault u := by
  have hend : runTick host i cap (ticks + 1) w = .error fault u := by
    rw [runTick, bind_of_error hcall]
  rw [runFrom, bind_of_error hend]

end

namespace Rounds

variable {n m : Nat} {w u u' v : World σ ι}

theorem trans (h : Rounds host i rest sleep n w u) (k : Rounds host i rest sleep m u v) :
    Rounds host i rest sleep (m + n) w v := by
  induction h with
  | none w => exact k
  | more call slept later ih => exact .more call slept (ih k)

/-- It can be done in one way only. -/
theorem unique (h : Rounds host i rest sleep n w u) (k : Rounds host i rest sleep n w u') :
    u = u' := by
  induction h with
  | none w =>
    cases k
    rfl
  | more call slept later ih =>
    cases k with
    | more call' slept' later' =>
      cases call.symm.trans call'
      cases slept.symm.trans slept'
      exact ih later'

/-- A call that is answered with no is not followed by others. -/
theorem le_of_no (h : Rounds host i rest sleep n w u) (k : Rounds host i rest sleep m w u')
    (hno : tick host i u' = .ok false v) : n ≤ m := by
  induction h generalizing m with
  | none w => exact Nat.zero_le m
  | more call slept later ih =>
    cases k with
    | none _ => exact nomatch call.symm.trans hno
    | more call' slept' later' =>
      cases call.symm.trans call'
      cases slept.symm.trans slept'
      exact Nat.succ_le_succ (ih later')

/-- What has been gone through is before the first no. -/
theorem lt_firstNo (h : Rounds host i rest sleep n w u) :
    ((n + 1 : ℕ) : ℕ∞) ≤ firstNo host i rest sleep w := by
  refine le_sInf ?_
  rintro _ ⟨m, u', v, rfl, k, hno⟩
  exact Nat.cast_le.mpr (Nat.succ_le_succ (h.le_of_no k hno))

/-- Where a call is answered with yes, the first no comes later. -/
theorem lt_firstNo_of_yes (h : Rounds host i rest sleep n w u) (hyes : tick host i u = .ok true v) :
    ((n + 1 : ℕ) : ℕ∞) < firstNo host i rest sleep w := by
  refine lt_of_lt_of_le (Nat.cast_lt.mpr (Nat.lt_succ_self (n + 1))) (le_sInf ?_)
  rintro _ ⟨m, u', v', rfl, k, hno⟩
  refine Nat.cast_le.mpr (Nat.succ_le_succ (lt_of_le_of_ne (h.le_of_no k hno) ?_))
  rintro rfl
  cases h.unique k
  exact nomatch hyes.symm.trans hno

/-- The first no comes where it is said. -/
theorem firstNo_eq (h : Rounds host i rest sleep n w u) (hno : tick host i u = .ok false v) :
    firstNo host i rest sleep w = (n + 1 : ℕ) :=
  le_antisymm (sInf_le ⟨n, u, v, rfl, h, hno⟩) h.lt_firstNo

/-- **Behind the calls that it has gone through, a run goes on as a run of its own.** -/
theorem runFrom {cap : Option Int} (ticks : Nat)
    (h : Rounds host i rest sleep n w u) (hcap : ((ticks + n : ℕ) : ℕ∞) < lastCall cap)
    (more : Nat) :
    Cadence.runFrom host i rest cap sleep (more + n) ticks w =
      Cadence.runFrom host i rest cap sleep more (ticks + n) u := by
  induction h generalizing ticks with
  | none w => rfl
  | @more n w u v w' call slept later ih =>
    have hlater : ((ticks + 1 + n : ℕ) : ℕ∞) < lastCall cap := by
      rwa [Nat.add_right_comm]
    have hfirst : ¬ lastCall cap ≤ (ticks + 1 : ℕ) := by
      refine not_le.mpr (lt_of_le_of_lt (Nat.cast_le.mpr ?_) hcap)
      omega
    rw [← Nat.add_assoc, runFrom_of_yes call hfirst, bind_of_ok slept, ih _ hlater,
      Nat.add_right_comm ticks, Nat.add_assoc ticks]

/-- Unless a run fails, it goes through all calls that the cap allows but the last, or meets a no
among them. -/
theorem exists_or_no {cap : Option Int}
    (hfine : ∀ most fault v, run host i rest cap sleep most w ≠ .error fault v) :
    ∀ n : ℕ, (n : ℕ∞) < lastCall cap →
      (∃ u, Rounds host i rest sleep n w u) ∨ firstNo host i rest sleep w ≤ n := by
  intro n
  induction n with
  | zero => exact fun _ => .inl ⟨w, .none w⟩
  | succ n ih =>
    intro hcap
    have hbefore : (n : ℕ∞) < lastCall cap :=
      lt_of_le_of_lt (Nat.cast_le.mpr (Nat.le_succ n)) hcap
    obtain ⟨u, hgoes⟩ | hno := ih hbefore
    · have hrun : ∀ more, run host i rest cap sleep (more + n) w =
          Cadence.runFrom host i rest cap sleep more n u := by
        intro more
        have h := hgoes.runFrom 0 (by rwa [Nat.zero_add]) more
        rwa [Nat.zero_add] at h
      cases hcall : tick host i u with
      | error fault v => exact absurd ((hrun 1).trans (runFrom_of_error hcall)) (hfine _ _ _)
      | ok b v =>
        cases b with
        | false => exact .inr (le_of_eq (hgoes.firstNo_eq hcall))
        | true =>
          have hgo : Cadence.runFrom host i rest cap sleep 1 n u =
              (nap rest sleep >>= fun _ => Cadence.runFrom host i rest cap sleep 0 (n + 1)) v :=
            runFrom_of_yes hcall (not_le.mpr hcap)
          cases hslept : nap rest sleep v with
          | error fault v' =>
            rw [bind_of_error hslept] at hgo
            exact absurd ((hrun 1).trans hgo) (hfine _ _ _)
          | ok _ v' =>
            refine .inl ⟨v', ?_⟩
            have hone := Rounds.more hcall hslept (.none v')
            have := hgoes.trans hone
            rwa [Nat.add_comm] at this
    · exact .inr (hno.trans (Nat.cast_le.mpr (Nat.le_succ n)))

end Rounds

/-! ## How a run ends -/

/-- A script is stopped: it runs, and waits for nothing. -/
structure Script.Stopped (s : Script ι) : Prop where
  /-- It runs. -/
  running : s.activity = .running
  /-- It has no deadline. -/
  deadline : s.deadline = none
  /-- It has no callback. -/
  callback : s.callback = none

/-- Who stops the active script stops it. -/
theorem World.stopped_stopActive {w : World σ ι} (h : w.active = some i) :
    (w.stopActive.script i).Stopped := by
  have hscript : w.stopActive.script i = (w.modifyScript i Script.release).script i := by
    simp [World.stopActive, World.modifyActive, h, World.script]
  rw [hscript, World.script_modifyScript]
  by_cases hi : i < w.scripts.size
  · rw [if_pos ⟨rfl, hi⟩]
    exact ⟨rfl, rfl, rfl⟩
  · rw [if_neg fun h => hi h.2, World.script_of_size_le (Nat.le_of_not_lt hi)]
    exact ⟨rfl, rfl, rfl⟩

/-- **How many calls a run makes, and how it ends.**  A run that does not fail calls its script until
a call is answered with no, or the cap is reached, whichever comes first; the cap is tested behind a
call, so a cap of 0 comes to one call.  It sleeps between each two calls and not behind the last.
It answers the number of calls, if it may make that many.  If the host leaves the active script
alone, no script is active then, and a script that was stopped by the cap runs and waits for
nothing. -/
theorem run_counts {cap : Option Int} {w : World σ ι}
    (hfine : ∀ most fault v, run host i rest cap sleep most w ≠ .error fault v) :
    (rest.positive = true → nap rest sleep = (seconds rest >>= sleep)) ∧
    1 ≤ min (lastCall cap) (firstNo host i rest sleep w) ∧
    (∀ n : ℕ, min (lastCall cap) (firstNo host i rest sleep w) = (n + 1 : ℕ) →
      ∃ u b v w',
        -- `n` times a call and a sleep, the last call, and the stop if it was the cap
        Rounds host i rest sleep n w u ∧ tick host i u = .ok b v ∧
        w' = (if b then v.stopActive else v) ∧
        (b = false ↔ firstNo host i rest sleep w = (n + 1 : ℕ)) ∧
        (∀ most, n + 1 ≤ most → run host i rest cap sleep most w = .ok (some (n + 1)) w') ∧
        (∀ most ≤ n, ∃ u', Rounds host i rest sleep most w u' ∧
          run host i rest cap sleep most w = .ok none u') ∧
        -- what is left
        (b = true → w'.active = none) ∧
        (host.KeepsThroughout SameActive → w'.active = none ∧ (b = true → (w'.script i).Stopped))) ∧
    (min (lastCall cap) (firstNo host i rest sleep w) = ⊤ →
      ∀ most, ∃ u, Rounds host i rest sleep most w u ∧
        run host i rest cap sleep most w = .ok none u) := by
  -- what a run does behind the calls that it has gone through
  have hrun : ∀ {n u}, Rounds host i rest sleep n w u → (n : ℕ∞) < lastCall cap →
      ∀ more, run host i rest cap sleep (more + n) w = runFrom host i rest cap sleep more n u := by
    intro n u hgoes hcap more
    have h := hgoes.runFrom 0 (by rwa [Nat.zero_add]) more
    rwa [Nat.zero_add] at h
  have hwhole : ∀ {n : ℕ}, (n : ℕ∞) < min (lastCall cap) (firstNo host i rest sleep w) →
      ∃ u, Rounds host i rest sleep n w u ∧ run host i rest cap sleep n w = .ok none u := by
    intro n hn
    have hcap := lt_of_lt_of_le hn (min_le_left _ _)
    obtain ⟨u, hgoes⟩ | hno := Rounds.exists_or_no hfine n hcap
    · refine ⟨u, hgoes, ?_⟩
      have h := hrun hgoes hcap 0
      rwa [Nat.zero_add] at h
    · exact absurd (lt_of_lt_of_le hn (min_le_right _ _)) (not_lt.mpr hno)
  refine ⟨fun hrest => if_pos hrest, ?_, fun n hn => ?_,
    fun htop most => hwhole (htop ▸ WithTop.coe_lt_top most)⟩
  · refine le_min ?_ (by simpa using (Rounds.none w).lt_firstNo)
    cases cap with
    | none => exact le_top
    | some k => exact Nat.one_le_cast.mpr (Nat.le_max_right _ _)
  · have hbelow : (n : ℕ∞) < min (lastCall cap) (firstNo host i rest sleep w) := by
      rw [hn]
      exact Nat.cast_lt.mpr (Nat.lt_succ_self n)
    have hcap := lt_of_lt_of_le hbelow (min_le_left _ _)
    obtain ⟨u, hgoes, -⟩ := hwhole hbelow
    have hfewer : ∀ most ≤ n, ∃ u', Rounds host i rest sleep most w u' ∧
        run host i rest cap sleep most w = .ok none u' :=
      fun most hmost => hwhole (lt_of_le_of_lt (Nat.cast_le.mpr hmost) hbelow)
    have hmore : ∀ {w'}, (∀ more, runFrom host i rest cap sleep (more + 1) n u =
        .ok (some (n + 1)) w') →
        ∀ most, n + 1 ≤ most → run host i rest cap sleep most w = .ok (some (n + 1)) w' := by
      intro w' hlast most hmost
      obtain ⟨more, rfl⟩ := Nat.exists_eq_add_of_le hmost
      rw [Nat.add_right_comm, Nat.add_comm n, Nat.add_right_comm, hrun hgoes hcap, hlast]
    cases hcall : tick host i u with
    | error fault v =>
      exact absurd ((hrun hgoes hcap 1).trans (runFrom_of_error hcall)) (hfine _ _ _)
    | ok b v =>
      cases b with
      | false =>
        have hno := hgoes.firstNo_eq hcall
        exact ⟨u, false, v, v, hgoes, hcall, rfl, ⟨fun _ => hno, fun _ => rfl⟩,
          hmore fun _ => runFrom_of_no hcall, hfewer, nofun,
          fun hh => ⟨active_of_tick hh i hcall, nofun⟩⟩
      | true =>
        have hlater := hgoes.lt_firstNo_of_yes hcall
        have hreached : lastCall cap = (n + 1 : ℕ) := by
          obtain h | h := min_choice (lastCall cap) (firstNo host i rest sleep w)
          · exact h.symm.trans hn
          · exact absurd (h.symm.trans hn) (ne_of_gt hlater)
        exact ⟨u, true, v, v.stopActive, hgoes, hcall, rfl,
          ⟨nofun, fun h => absurd h (ne_of_gt hlater)⟩,
          hmore fun _ => runFrom_of_cap hcall (le_of_eq hreached), hfewer, fun _ => rfl,
          fun hh => ⟨rfl, fun _ => World.stopped_stopActive (active_of_tick hh i hcall)⟩⟩

/-! ## A script without an end -/

/-- A world with a script that starts over and over. -/
def spinningWorld : World Unit Unit where
  host := ()
  scripts := #[.start "spinning" spinningRoot]

/-- An operation that gives an answer ends in the world after it. -/
theorem ok_after_of_answer {α : Type} {x : ScriptM σ ι α} {w : World σ ι} (a : α)
    (h : EStateM.run' x w = some a) : x w = .ok a (x.after w) := by
  delta EStateM.run' EStateM.run at h
  cases hx : x w with
  | ok b u =>
    rw [hx] at h
    rw [after_of_ok hx, Option.some.inj h]
  | error fault u =>
    rw [hx] at h
    cases h

/-- With a cap of 2 it is called twice, with one sleep between, and stopped then. -/
theorem run_counts_spinning :
    let sleep : Float → ScriptM Unit Unit Unit := fun _ => pure ()
    (∀ most fault v,
      run quietHost 0 (.whole 50) (some 2) sleep most spinningWorld ≠ .error fault v) ∧
    ∃ w', run quietHost 0 (.whole 50) (some 2) sleep 9 spinningWorld = .ok (some 2) w' ∧
      w'.active = none ∧ (w'.script 0).Stopped := by
  intro sleep
  let call (w : World Unit Unit) := (tick quietHost 0).after w
  let u := (nap (.whole 50) sleep).after (call spinningWorld)
  have hfirst : tick quietHost 0 spinningWorld = .ok true (call spinningWorld) :=
    ok_after_of_answer true (by decide +kernel)
  have hslept : nap (.whole 50) sleep (call spinningWorld) = .ok () u :=
    ok_after_of_answer () (by decide +kernel)
  have hsecond : tick quietHost 0 u = .ok true (call u) :=
    ok_after_of_answer true (by decide +kernel)
  have hgoes : Rounds quietHost 0 (.whole 50) sleep 1 spinningWorld u :=
    .more hfirst hslept (.none u)
  have hcap : lastCall (some 2) = ((1 + 1 : ℕ) : ℕ∞) := rfl
  have hfine : ∀ most fault v,
      run quietHost 0 (.whole 50) (some 2) sleep most spinningWorld ≠ .error fault v := by
    intro most fault v
    cases most with
    | zero => exact nofun
    | succ most =>
      have hone : ((0 + 1 : ℕ) : ℕ∞) < lastCall (some 2) := hcap ▸ Nat.cast_lt.mpr (by decide)
      have hrun := hgoes.runFrom 0 hone most
      show runFrom _ _ _ _ _ (most + 1) 0 _ ≠ _
      rw [hrun]
      cases most with
      | zero => exact nofun
      | succ most =>
        rw [runFrom_of_cap hsecond (le_of_eq hcap)]
        exact nofun
  obtain ⟨-, -, hcounts, -⟩ := run_counts hfine
  have hmin : min (lastCall (some 2)) (firstNo quietHost 0 (.whole 50) sleep spinningWorld) =
      ((1 + 1 : ℕ) : ℕ∞) := by
    rw [hcap]
    exact min_eq_left (hgoes.lt_firstNo)
  obtain ⟨u', b, v, w', hgoes', hcall, -, -, hrun, -, -, hleft⟩ := hcounts 1 hmin
  cases hgoes.unique hgoes'
  cases hsecond.symm.trans hcall
  obtain ⟨hnone, hstopped⟩ := hleft (quietHost_keepsThroughout (sameActive_steers 0).toTolerant)
  exact ⟨hfine, w', hrun 9 (by decide), hnone, hstopped rfl⟩

/-- **A cap of 0 comes to one call**: the statement is executed, and the run answers 1. -/
theorem one_call_of_zero :
    EStateM.run' (run quietHost 0 (.whole 50) (some 0) (fun _ => pure ()) 1) spinningWorld =
      some (some 1) ∧
    ((run quietHost 0 (.whole 50) (some 0) (fun _ => pure ()) 1).after spinningWorld).log.next = 1 ∧
    min ((0 : ℕ) : ℕ∞) (firstNo quietHost 0 (.whole 50) (fun _ => pure ()) spinningWorld) = 0 := by
  exact ⟨by decide +kernel, by decide +kernel, by simp⟩

/-! ## A host that ticks other scripts -/

/-- A host whose commands put their script to wait, tick the second script, and have not done with
that. -/
def busyHost : Host Unit Unit :=
  { quietHost with
    command := fun _ _ _ _ _ => do
      timeout (.whole 100) none
      let _ ← tick quietHost 1
      return .bool false }

/-- A world with a script of one command, and one that starts over and over. -/
def busyWorld : World Unit Unit where
  host := ()
  scripts := #[.start "working"
    { kind := .script
      children := [{ kind := .statement, line := 1
                     children := [{ kind := .command, lexeme := some "work", line := 1 }] }] },
    .start "spinning" spinningRoot]
  registry := { commands := Table.empty.insert "work" (.host ()) }

/-- **The cap stops whichever script is active**: if a command has ticked another script, its own one
waits still. -/
theorem waits_of_busy :
    let ran := (run busyHost 0 (.whole 50) (some 1) (fun _ => pure ()) 1).after busyWorld
    ran.active = none ∧ (ran.script 0).activity = .timingOut := by
  exact ⟨by decide +kernel, by decide +kernel⟩

end Cadence
