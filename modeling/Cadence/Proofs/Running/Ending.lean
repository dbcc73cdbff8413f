/-
  ENDING — after a tick that says the script is over, no tick executes a statement of it.

  A tick says so for two reasons.  The script has no statement left: then its cursor stays where it
  is, at the end.  Or the script was abandoned: its wait has run out, its callback is used up, and as
  the clock does not go back, each later tick finds it so.  Both are one condition on the script
  (`Script.Over`), and the proof is that ticks keep it.

  1. **The end** — a tick that says the script is over leaves it over (`over_of_false`).

  2. **One tick** — what a tick makes of a script that is over (`tick_of_over`).

  3. **Later** — time goes by, and the script gets ticks (`Later`); nobody else moves it.

  A script that is over may still be asleep, when its last statement was a pause.  Until it wakes up
  its ticks do not say again that it is over; and this is the only exception.
-/
import Cadence.Proofs.Running.Calling
import Cadence.Proofs.Running.Executing
import Cadence.Proofs.Running.Suspension

namespace Cadence

open ScriptM

/-! ## Scripts that are over -/

/-- There is nothing to be done for a script any more. -/
inductive Script.Over {ι : Type} (s : Script ι) (now : Float) : Prop
  /-- It has no statement left. -/
  | exhausted : s.Settled → s.cursor = none → Over s now
  /-- Its wait has run out, and there is nobody to ask. -/
  | abandoned (d : Float) : s.activity = .timingOut → s.deadline = some d → d ≤ now →
      s.callback = none → Over s now

/-- Two scripts are suspended alike and have their cursors at the same place. -/
structure Script.Alike {ι : Type} (s s' : Script ι) : Prop where
  /-- They are active or suspended in the same way. -/
  activity : s'.activity = s.activity
  /-- They have the same deadline. -/
  deadline : s'.deadline = s.deadline
  /-- They have the same callback. -/
  callback : s'.callback = s.callback
  /-- They have the same cursor. -/
  cursor : s'.cursor = s.cursor

namespace Script

variable {ι : Type} {s s' : Script ι} {now now' : Float}

/-- A script that is over is settled. -/
theorem Over.settled (h : s.Over now) : s.Settled := by
  cases h with
  | exhausted hsettled _ => exact hsettled
  | abandoned d hwait hdeadline _ _ =>
    exact Stands.settled (a := .timingOut) ⟨hwait, by rw [hdeadline]; rfl⟩

/-- Scripts of one course are alike. -/
theorem alike_of_course (h : s'.course = s.course) : s.Alike s' := by
  constructor
  · simpa [course] using congrArg Script.activity h
  · simpa [course] using congrArg Script.deadline h
  · simpa [course] using congrArg Script.callback h
  · simpa [course] using congrArg Script.cursor h

/-- A script that is over stays over while time goes by. -/
theorem Over.later (h : s.Over now) (hs : s.Alike s')
    (hnow : ∀ d, d ≤ now → d ≤ now') : s'.Over now' := by
  cases h with
  | exhausted hsettled hcursor =>
    exact .exhausted (hsettled.congr hs.activity hs.deadline hs.callback)
      (hs.cursor.trans hcursor)
  | abandoned d hwait hdeadline hlate hcallback =>
    exact .abandoned d (hs.activity.trans hwait) (hs.deadline.trans hdeadline) (hnow d hlate)
      (hs.callback.trans hcallback)

end Script

section

variable {σ ι : Type} {host : Host σ ι} {i : Nat}

/-- If no callback disturbs anything, asking one does not. -/
theorem passes_ask (hk : ∀ t, Passes (host.callback t)) (c : Callback ι) :
    Passes (ask host c) := by
  cases c with
  | giveUp => exact .pure true
  | host t => exact .bind (hk t) fun v => .pure v.truthy

/-- Who is suspended is there. -/
theorem World.lt_size_of_suspended {w : World σ ι} (h : (w.script i).activity ≠ .running) :
    i < w.scripts.size := by
  rcases Nat.lt_or_ge i w.scripts.size with hi | hi
  · exact hi
  · rw [World.script_of_size_le hi] at h
    exact absurd rfl h

theorem Script.Settled.advance {s : Script ι} (h : s.Settled) : s.advance.Settled :=
  h.clearTimeout.congr rfl rfl rfl

/-- A script is settled and does not rest, and it has no statement left if the other has none. -/
structure Script.Follows (s s' : Script ι) : Prop where
  /-- It is settled. -/
  settled : s'.Settled
  /-- It does not rest. -/
  awake : s'.activity ≠ .paused
  /-- The end stays the end. -/
  ended : s.cursor = none → s'.cursor = none

namespace Script

variable {s : Script ι}

theorem follows_self (hs : s.Settled) (h : s.activity ≠ .paused) : s.Follows s := ⟨hs, h, id⟩

theorem follows_of_stands {s' : Script ι} (hcursor : s'.cursor = s.cursor)
    (h : s'.Stands .running) : s.Follows s' := by
  refine ⟨h.settled, ?_, fun hnone => hcursor.trans hnone⟩
  rw [h.1]
  exact nofun

theorem follows_advance (hs : s.Settled) (h : s.activity = .timingOut) :
    s.Follows s.consume.advance := by
  have hwait : s.consume.activity = .timingOut := h
  refine ⟨hs.consume.advance, ?_, ?_⟩
  · have hrun : s.consume.clearTimeout.activity = .running := by
      rw [clearTimeout, if_pos hwait]
    show s.consume.clearTimeout.activity ≠ .paused
    rw [hrun]
    decide
  · intro hcursor
    rw [advance_cursor]
    show s.cursor.bind Statement.next? = none
    rw [hcursor]
    rfl

theorem not_asleep (h : s.activity ≠ .paused) (now : Float) : ¬ s.Asleep now :=
  fun hasleep => h hasleep.1

end Script

/-- A settled script that does not wait is asleep, or it gets its chance where it stands, and then it
runs and nothing is pending. -/
theorem chance_of_calm (host : Host σ ι) {w : World σ ι} (hs : (w.script i).Settled)
    (hcalm : (w.script i).activity ≠ .timingOut) :
    (w.script i).Asleep w.now ∨
    (¬ (w.script i).Asleep w.now ∧ ∃ u, u.now = w.now ∧ chance host i w = .ok .run u ∧
      (u.script i).cursor = (w.script i).cursor ∧ (u.script i).Stands .running) := by
  let w₀ : World σ ι := { w with active := some i }
  cases hactivity : (w.script i).activity with
  | running =>
    have hawake : (w.script i).activity ≠ .paused := by
      rw [hactivity]
      exact nofun
    exact .inr ⟨Script.not_asleep hawake _, w₀, rfl, chance_of_running host i hactivity, rfl,
      hs.stands hactivity⟩
  | paused =>
    obtain ⟨d, hd⟩ := Option.isSome_iff_exists.mp (hs.stands hactivity).2.1
    by_cases hearly : w.now < d
    · exact .inl ⟨hactivity, d, hd, hearly⟩
    · -- the deadline has come, and the script wakes up
      have hawake : ¬ (w.script i).Asleep w.now := by
        rintro ⟨-, d', hd', hlt⟩
        cases hd.symm.trans hd'
        exact hearly hlt
      have hi : i < w.scripts.size := World.lt_size_of_suspended (by rw [hactivity]; exact nofun)
      have hwoken : (w₀.modifyScript i Script.unpause).script i =
          { w.script i with deadline := none, activity := .running } :=
        (World.script_modifyScript_self (w := w₀) _ hi).trans (if_pos hactivity)
      refine .inr ⟨hawake, w₀.modifyScript i Script.unpause, rfl,
        chance_of_late host hactivity hd hearly, ?_, ?_⟩
      · rw [hwoken]
      · rw [hwoken]
        exact ⟨rfl, rfl, (hs.stands hactivity).2.2⟩
  | timingOut => exact absurd hactivity hcalm

/-- A script whose wait has run out is abandoned, or it gets its chance behind the statement. -/
theorem chance_of_run_out (hk : ∀ t, Passes (host.callback t)) {w : World σ ι} {d : Float}
    (hs : (w.script i).Settled) (hwait : (w.script i).activity = .timingOut)
    (hd : (w.script i).deadline = some d) (hlate : d ≤ w.now) :
    (∃ u, u.now = w.now ∧ chance host i w = .ok .abandon u ∧ (u.script i).Over u.now ∧
      (u.script i).activity = .timingOut) ∨
    (∃ u, u.now = w.now ∧ chance host i w = .ok .run u ∧ (w.script i).Follows (u.script i)) := by
  let u : World σ ι := ({ w with active := some i } : World σ ι).modifyScript i Script.consume
  have hi : i < w.scripts.size := World.lt_size_of_suspended (by rw [hwait]; exact nofun)
  have hu : u.script i = (w.script i).consume := World.script_modifyScript_self _ hi
  have hover : ∀ v : World σ ι, Undisturbed u v →
      (v.script i).Over v.now ∧ (v.script i).activity = .timingOut := by
    intro v hv
    have hnow : v.now = w.now := hv.now
    rw [hv.script i, hu, hnow]
    exact ⟨.abandoned d hwait hd hlate rfl, hwait⟩
  cases hcallback : (w.script i).callback with
  | none =>
    have hchance := chance_of_unasked host hi hwait hd hlate hcallback
    exact .inl ⟨u, rfl, hchance, hover u (.refl u)⟩
  | some c =>
    obtain ⟨b, v, hask, hv⟩ := passes_ask hk c u
    have hiv : i < v.scripts.size := by
      rw [hv.scripts]
      simpa [u] using hi
    have hchance := chance_of_asked host hiv hwait hd hlate hcallback hask (hover v hv).2
    cases b with
    | false => exact .inl ⟨v, hv.now, hchance, hover v hv⟩
    | true =>
      refine .inr ⟨v.modifyScript i Script.advance, hv.now, hchance, ?_⟩
      rw [World.script_modifyScript_self _ hiv, hv.script i, hu]
      exact Script.follows_advance hs hwait

/-- What becomes of the tick of a settled script, if no callback disturbs anything: the script is
asleep, or it is abandoned, or it gets its chance. -/
theorem chance_of_settled (hk : ∀ t, Passes (host.callback t)) {w : World σ ι}
    (hs : (w.script i).Settled) :
    (w.script i).Asleep w.now ∨
    (¬ (w.script i).Asleep w.now ∧ ∃ u, u.now = w.now ∧ chance host i w = .ok .abandon u ∧
      (u.script i).Over u.now ∧ (u.script i).activity = .timingOut) ∨
    (¬ (w.script i).Asleep w.now ∧ ∃ u, u.now = w.now ∧ chance host i w = .ok .run u ∧
      (w.script i).Follows (u.script i)) := by
  by_cases hwait : (w.script i).activity = .timingOut
  · have hawake : (w.script i).activity ≠ .paused := by
      rw [hwait]
      exact nofun
    obtain ⟨d, hd⟩ := Option.isSome_iff_exists.mp (hs.stands hwait).2
    by_cases hlate : d ≤ w.now
    · rcases chance_of_run_out hk hs hwait hd hlate with h | h
      · exact .inr (.inl ⟨Script.not_asleep hawake _, h⟩)
      · exact .inr (.inr ⟨Script.not_asleep hawake _, h⟩)
    · have hchance := chance_of_waiting host hwait hd hlate
      exact .inr (.inr ⟨Script.not_asleep hawake _, { w with active := some i }, rfl, hchance,
        Script.follows_self hs hawake⟩)
  · rcases chance_of_calm host hs hwait with hasleep | ⟨hawake, u, hnow, hchance, hcursor, hu⟩
    · exact .inl hasleep
    · exact .inr (.inr ⟨hawake, u, hnow, hchance, Script.follows_of_stands hcursor hu⟩)

/-! ## The end -/

/-- A script that is abandoned ends. -/
theorem tick_of_abandoned (hh : host.Unobtrusive) {w u : World σ ι}
    (hchance : chance host i w = .ok .abandon u) :
    ∃ w', tick host i w = .ok false w' ∧ Unmoved u w' := by
  obtain ⟨w', hfinish, hw'⟩ := finish_unmoved hh i u
  refine ⟨w', ?_, hw'⟩
  rw [tick_eq_chance, bind_of_ok hchance]
  show (finish host i >>= fun _ => (return false : ScriptM σ ι Bool)) u = _
  rw [bind_of_ok hfinish]
  rfl

/-- A script that gets its chance and has no statement ends. -/
theorem tick_of_exhausted (hh : host.Unobtrusive) {w u : World σ ι}
    (hchance : chance host i w = .ok .run u) (hcursor : (u.script i).cursor = none) :
    ∃ w', tick host i w = .ok false w' ∧ Unmoved u w' := by
  obtain ⟨w', hfinish, hw'⟩ := finish_unmoved hh i u
  refine ⟨w', ?_, hw'⟩
  rw [tick_of_chance host hchance, step_of_none host i hcursor, bind_of_ok hfinish]
  rfl

/-- Who is over stays over where nothing moves. -/
theorem Unmoved.over {u v : World σ ι} (h : Unmoved u v) (hu : (u.script i).Over u.now) :
    (v.script i).Over v.now := by
  rw [h.script i, h.now]
  exact hu

/-- **A tick that says the script is over leaves it over.** -/
theorem over_of_false (hh : host.Unobtrusive) (hk : ∀ t, Passes (host.callback t))
    {w w₁ : World σ ι} (hs : (w.script i).Settled) (hs₁ : (w₁.script i).Settled)
    (h : tick host i w = .ok false w₁) : (w₁.script i).Over w₁.now := by
  rcases chance_of_settled hk hs with hasleep | ⟨-, u, -, hchance, hu, -⟩ | ⟨-, u, -, hchance, -⟩
  · rw [tick_of_asleep host hasleep] at h
    cases h
  · obtain ⟨w', htick, hw'⟩ := tick_of_abandoned hh hchance
    cases htick.symm.trans h
    exact hw'.over hu
  · refine .exhausted hs₁ ?_
    cases hcursor : (u.script i).cursor with
    | none =>
      obtain ⟨w', htick, hw'⟩ := tick_of_exhausted hh hchance hcursor
      cases htick.symm.trans h
      rw [hw'.script i, hcursor]
    | some t =>
      -- the statement that was executed was the last one
      obtain ⟨v, -, hok, herror⟩ := step_executes hh hcursor
      rw [tick_of_chance host hchance] at h
      cases hx : executeStatement host i t v with
      | ok a v' =>
        obtain ⟨w', hstep, hw'⟩ := hok v' hx
        obtain ⟨hends, rfl⟩ := EStateM.Result.ok.inj (hstep.symm.trans h)
        rw [hw'.script i]
        exact Option.isNone_iff_eq_none.mp (Option.isSome_eq_false_iff.mp hends)
      | error fault v' =>
        obtain ⟨e, w', hstep, -⟩ := herror fault v' hx
        rw [hstep] at h
        cases h

/-! ## One tick -/

/-- **A tick of a script that is over** executes nothing.  It does nothing at all if the script is
asleep; otherwise it says that the script is over, and leaves it over and awake. -/
theorem tick_of_over (hh : host.Unobtrusive) (hk : ∀ t, Passes (host.callback t)) {w : World σ ι}
    (h : (w.script i).Over w.now) :
    (∀ t, ¬ Executes host i w t) ∧
    (¬ (w.script i).Asleep w.now → ∃ w', tick host i w = .ok false w' ∧
      (w'.script i).Over w'.now ∧ (w'.script i).activity ≠ .paused) := by
  rcases chance_of_settled hk h.settled with
    hasleep | ⟨-, u, -, hchance, hu, hwait⟩ | ⟨-, u, hnow, hchance, hu⟩
  · exact ⟨not_executes_of_asleep hasleep, fun hawake => absurd hasleep hawake⟩
  · constructor
    · intro t ht
      obtain ⟨u', hchance', -⟩ := (executes_iff hh).mp ht
      cases hchance.symm.trans hchance'
    · intro _
      obtain ⟨w', htick, hw'⟩ := tick_of_abandoned hh hchance
      refine ⟨w', htick, hw'.over hu, ?_⟩
      rw [hw'.script i, hwait]
      exact nofun
  · have hcursor : (u.script i).cursor = none := by
      cases h with
      | exhausted _ hcursor => exact hu.ended hcursor
      | abandoned d hwait hd hlate hcallback =>
        -- who is abandoned does not get his chance
        have hi : i < w.scripts.size := World.lt_size_of_suspended (by rw [hwait]; exact nofun)
        cases hchance.symm.trans (chance_of_unasked host hi hwait hd hlate hcallback)
    constructor
    · intro t ht
      cases hcursor.symm.trans ((executes_of_chance hh hchance).mp ht)
    · intro _
      obtain ⟨w', htick, hw'⟩ := tick_of_exhausted hh hchance hcursor
      refine ⟨w', htick, hw'.over (.exhausted hu.settled hcursor), ?_⟩
      rw [hw'.script i]
      exact hu.awake

/-! ## Later -/

/-- Time goes by for a script, and the clock does not go back.  The script gets ticks; in between
anything may happen that leaves its course alone. -/
inductive Later (host : Host σ ι) (i : Nat) (w : World σ ι) : World σ ι → Prop
  /-- Nothing has happened yet. -/
  | start : Later host i w w
  /-- Something happens to the clock, the stores or the other scripts. -/
  | meanwhile {u v : World σ ι} : Later host i w u →
      (v.script i).course = (u.script i).course → (∀ d, d ≤ u.now → d ≤ v.now) → Later host i w v
  /-- The script gets a tick. -/
  | tick {u : World σ ι} : Later host i w u → Later host i w ((tick host i).after u)

/-- **A script that is over stays over**, and if it does not rest it does not rest later either. -/
theorem Later.over (hh : host.Unobtrusive) (hk : ∀ t, Passes (host.callback t)) {w v : World σ ι}
    (hw : (w.script i).Over w.now) (h : Later host i w v) :
    (v.script i).Over v.now ∧
      ((w.script i).activity ≠ .paused → (v.script i).activity ≠ .paused) := by
  induction h with
  | start => exact ⟨hw, id⟩
  | @meanwhile u v _ hcourse hnow ih =>
    have halike := Script.alike_of_course hcourse
    refine ⟨ih.1.later halike hnow, ?_⟩
    rw [halike.activity]
    exact ih.2
  | @tick u _ ih =>
    by_cases hasleep : (u.script i).Asleep u.now
    · rw [after_of_ok (tick_of_asleep host hasleep)]
      exact ih
    · obtain ⟨-, hends⟩ := tick_of_over hh hk ih.1
      obtain ⟨u', htick, hover, hawake⟩ := hends hasleep
      rw [after_of_ok htick]
      exact ⟨hover, fun _ => hawake⟩

/-- **The end of a script is final.**  Let a tick of a reachable world say that the script is over,
and let time go by, with ticks or without.

* No later tick executes a statement of the script.
* If the script does not rest after the first tick that said so, every later tick says so again.
* If it does, the later ticks say so as soon as its deadline has come; before that they do nothing. -/
theorem Reachable.end_is_final [DecidableEq ι] {host : Host (Ledger σ ι) ι}
    (hb : Bookkeeping host) (hh : host.Unobtrusive) (hk : ∀ t, Passes (host.callback t))
    {w w₁ v : World (Ledger σ ι) ι} (hw : Reachable host w)
    (hend : Cadence.tick host i w = .ok false w₁) (hv : Later host i w₁ v) :
    (∀ t, ¬ Executes host i v t) ∧
    ((w₁.script i).activity ≠ .paused → ∃ v', Cadence.tick host i v = .ok false v') ∧
    (¬ (v.script i).Asleep v.now → ∃ v', Cadence.tick host i v = .ok false v') ∧
    ((v.script i).Asleep v.now →
      Cadence.tick host i v = .ok true { v with active := some i }) := by
  have hw₁ : Reachable host w₁ := by
    have := Reachable.tick i hw
    rwa [after_of_ok hend] at this
  have hover := over_of_false hh hk ((hw.sound hb).settled i) ((hw₁.sound hb).settled i) hend
  obtain ⟨hlater, hawake⟩ := hv.over hh hk hover
  obtain ⟨hnothing, hends⟩ := tick_of_over hh hk hlater
  have tells : ¬ (v.script i).Asleep v.now → ∃ v', Cadence.tick host i v = .ok false v' := by
    intro hasleep
    obtain ⟨v', htick, -⟩ := hends hasleep
    exact ⟨v', htick⟩
  refine ⟨hnothing, fun hw₁ => ?_, tells, tick_of_asleep host⟩
  exact tells (Script.not_asleep (hawake hw₁) _)

end

/-- A host that says yes to every command and lets no wait go on. -/
def strictHost : Host (Ledger Unit Unit) Unit where
  command _ _ _ _ _ := return .bool true
  expression _ _ _ _ := return .null
  computedAlias _ _ := return .null
  listener _ _ := return
  rule _ _ := return
  callback t := do
    modify (World.noteAsked t)
    return .bool false
  write _ := return

theorem strictHost_bookkeeping : Bookkeeping strictHost where
  around := ⟨fun _ _ _ _ _ => .refl, fun _ _ _ => .refl, fun _ _ _ => .refl, fun _ _ _ => .refl,
    fun _ _ => .refl⟩
  command _ _ _ _ _ _ := .refl
  callback _ _ := .refl

theorem strictHost_unobtrusive : strictHost.Unobtrusive := ⟨fun _ _ => .pure _, fun _ _ => .pure _⟩

theorem passes_strictHost_callback (t : Unit) : Passes (strictHost.callback t) :=
  fun w => ⟨.bool false, w.noteAsked t, rfl, rfl, rfl, rfl, rfl⟩

/-- A script that stops. -/
def stoppingRoot : Node where
  kind := .script
  children := [wordLine 1 .stop none]

/-- A world in which the script is about to stop. -/
def stoppingWorld : World (Ledger Unit Unit) Unit where
  host := { own := () }
  scripts := #[.start "stopping" stoppingRoot]

theorem stoppingWorld_reachable : Reachable strictHost stoppingWorld := by
  refine .fresh stoppingWorld ?_ rfl rfl
  intro s hs
  have he : s = _ := Array.mem_singleton.mp hs
  exact ⟨_, _, he⟩

theorem end_is_final_stopping :
    ∃ w₁, tick strictHost 0 stoppingWorld = .ok false w₁ ∧
      ∀ now, (∀ d, d ≤ w₁.now → d ≤ now) →
        ∃ v, tick strictHost 0 ((tick strictHost 0).after { w₁ with now }) = .ok false v := by
  have hends : (tick strictHost 0 stoppingWorld matches .ok false _) = true := by decide +kernel
  cases h : tick strictHost 0 stoppingWorld with
  | error fault u =>
    rw [h] at hends
    cases hends
  | ok b w₁ =>
    cases b with
    | true =>
      rw [h] at hends
      cases hends
    | false =>
      refine ⟨w₁, rfl, fun now hnow => ?_⟩
      have hawake : (((tick strictHost 0).after stoppingWorld).script 0).activity ≠ .paused := by
        decide +kernel
      rw [after_of_ok h] at hawake
      obtain ⟨-, htells, -, -⟩ := Reachable.end_is_final strictHost_bookkeeping
        strictHost_unobtrusive passes_strictHost_callback stoppingWorld_reachable h
        (.tick (.meanwhile (v := { w₁ with now }) .start rfl hnow))
      exact htells hawake

/-- A script whose last statement is a pause. -/
def drowsyRoot : Node where
  kind := .script
  children :=
    [{ kind := .statement, line := 1
       children := [{ kind := .command, lexeme := some "pause" },
         { kind := .integer, lexeme := some "100" }] }]

/-- A world in which the script is about to rest. -/
def drowsyWorld : World Unit Unit where
  host := ()
  scripts := #[.start "drowsy" drowsyRoot]
  registry := { commands := Table.empty.insert "pause" (.bundled .pause) }

/-- **A pause at the end**: the tick that runs it says that the script is over, and the next one says
that it is not. -/
theorem alive_again_of_drowsy :
    (tick quietHost 0 drowsyWorld matches .ok false _) = true ∧
      (tick quietHost 0 ((tick quietHost 0).after drowsyWorld) matches .ok true _) = true := by
  decide +kernel

end Cadence
