/-
  REPLACING — which statement of a new tree is executed first.

  To load another tree puts the cursor on its first statement and leaves a suspension as it is.  A
  rest only delays that statement.  A wait is another matter: it was begun by a statement of the old
  tree, and when its deadline comes its callback lets the script go on, now behind the first
  statement of the new tree.

  1. **Ready** — a script that runs or rests in front of a statement (`Script.ReadyFor`): its next
     tick executes this statement, unless it is asleep (`executes_of_ready`).

  2. **Idling** — time goes by without a statement of the script being executed (`Idles`); the script
     stays ready.

  3. **The result** — for the trees that are loaded while the script does not wait, and what the
     first statement is if it does.
-/
import Cadence.Proofs.Running.Ending

namespace Cadence

open ScriptM

/-! ## Ready -/

/-- A script runs or rests in front of a statement. -/
structure Script.ReadyFor {ι : Type} (t : Statement) (s : Script ι) : Prop where
  /-- The cursor is on the statement. -/
  cursor : s.cursor = some t
  /-- Its suspension is in order. -/
  settled : s.Settled
  /-- It does not wait. -/
  calm : s.activity ≠ .timingOut

namespace Script

variable {ι : Type} {s s' : Script ι} {t : Statement}

theorem ReadyFor.alike (h : s.ReadyFor t) (hs : s.Alike s') : s'.ReadyFor t where
  cursor := hs.cursor.trans h.cursor
  settled := h.settled.congr hs.activity hs.deadline hs.callback
  calm := by
    rw [hs.activity]
    exact h.calm

/-- A tree that is not empty has a first statement, and loading the tree puts the cursor there. -/
theorem exists_first (s : Script ι) {root : Node} (hroot : root.children ≠ []) :
    ∃ t, (s.replace root).statementAt? 0 = some t ∧ (s.replace root).cursor = some t := by
  have hlt : 0 < (Tree.mk root (s.load + 1)).kinds.length := by
    unfold Tree.kinds
    rw [List.length_map]
    exact List.length_pos_iff.mpr hroot
  obtain ⟨t, ht⟩ := Tree.exists_statement? hlt
  exact ⟨t, ht, ht⟩

/-- Who does not wait is ready for the first statement of a new tree. -/
theorem readyFor_replace (hs : s.Settled) (hcalm : s.activity ≠ .timingOut) {root : Node}
    (ht : (s.replace root).cursor = some t) : (s.replace root).ReadyFor t :=
  ⟨ht, hs.congr rfl rfl rfl, hcalm⟩

end Script

section

variable {σ ι : Type} {host : Host σ ι} {i : Nat} {t : Statement}

/-- **The tick of a ready script** executes the statement that the script is ready for, unless the
script is asleep. -/
theorem executes_of_ready (hh : host.Unobtrusive) {w : World σ ι} (h : (w.script i).ReadyFor t)
    (t' : Statement) :
    Executes host i w t' ↔ t' = t ∧ ¬ (w.script i).Asleep w.now := by
  rcases chance_of_calm host h.settled h.calm with
    hasleep | ⟨hawake, u, -, hchance, hcursor, -⟩
  · constructor
    · intro ht'
      exact absurd ht' (not_executes_of_asleep hasleep t')
    · rintro ⟨-, hawake⟩
      exact absurd hasleep hawake
  · rw [executes_of_chance hh hchance, hcursor, h.cursor, Option.some.injEq]
    constructor
    · intro ht'
      exact ⟨ht'.symm, hawake⟩
    · rintro ⟨ht', -⟩
      exact ht'.symm

/-! ## Idling -/

/-- Time goes by without a statement of the script being executed.  The clock may do what it likes;
ticks that execute nothing may happen, and anything that leaves the course of the script alone. -/
inductive Idles (host : Host σ ι) (i : Nat) (w : World σ ι) : World σ ι → Prop
  /-- Nothing has happened yet. -/
  | start : Idles host i w w
  /-- Something happens to the clock, the stores or the other scripts. -/
  | meanwhile {u v : World σ ι} : Idles host i w u →
      (v.script i).course = (u.script i).course → Idles host i w v
  /-- The script gets a tick that executes nothing. -/
  | tick {u : World σ ι} : Idles host i w u → (∀ t, ¬ Executes host i u t) →
      Idles host i w ((tick host i).after u)

/-- **While a ready script idles it stays ready.** -/
theorem Idles.ready (hh : host.Unobtrusive) {w v : World σ ι} (hw : (w.script i).ReadyFor t)
    (h : Idles host i w v) : (v.script i).ReadyFor t := by
  induction h with
  | start => exact hw
  | meanwhile _ hcourse ih => exact ih.alike (Script.alike_of_course hcourse)
  | @tick u _ hnothing ih =>
    rcases chance_of_calm host ih.settled ih.calm with hasleep | ⟨hawake, -⟩
    · rw [after_of_ok (tick_of_asleep host hasleep)]
      exact ih
    · exact absurd ((executes_of_ready hh ih t).mpr ⟨rfl, hawake⟩) (hnothing t)

/-! ## A new tree -/

/-- A wait that is left from an old tree: before its deadline the tick executes the first statement
of the new tree; after it the tick executes the one behind, if the callback just lets the script go
on. -/
theorem executes_of_left_wait (hh : host.Unobtrusive) {v : World σ ι} {d : Float}
    (hcursor : (v.script i).cursor = some t) (hwait : (v.script i).activity = .timingOut)
    (hd : (v.script i).deadline = some d) (t' : Statement) :
    (¬ d ≤ v.now → (Executes host i v t' ↔ t' = t)) ∧
    (d ≤ v.now → (v.script i).callback = some .giveUp →
      (Executes host i v t' ↔ t.next? = some t')) := by
  constructor
  · intro hearly
    rw [executes_of_chance hh (chance_of_waiting host hwait hd hearly)]
    show (v.script i).cursor = some t' ↔ t' = t
    rw [hcursor, Option.some.injEq]
    exact eq_comm
  · intro hlate hcallback
    let u : World σ ι := ({ v with active := some i } : World σ ι).modifyScript i Script.consume
    have hi : i < v.scripts.size := World.lt_size_of_cursor hcursor
    have hu : u.script i = (v.script i).consume := World.script_modifyScript_self _ hi
    have hiu : i < u.scripts.size := by simpa [u] using hi
    have hstill : (u.script i).activity = .timingOut := by
      rw [hu]
      exact hwait
    have hchance := chance_of_asked (b := true) host hiu hwait hd hlate hcallback rfl hstill
    rw [executes_of_chance hh hchance, World.script_modifyScript_self _ hiu, hu,
      Script.advance_cursor]
    show (v.script i).cursor.bind Statement.next? = some t' ↔ _
    rw [hcursor]
    exact Iff.rfl

/-- **The first statement of a new tree is the first that is executed**, unless the script waits when
the tree is loaded.  Let a tree with at least one statement be loaded in a reachable world.

* If the script runs or rests, then for as long as none of its statements was executed, with ticks
  or without, its next tick executes the first statement of the tree as soon as the script is not
  asleep, and nothing is pending then.
* If the script waits, its next tick executes the first statement before the deadline of the wait,
  and the second from the deadline on, if the callback just lets the script go on. -/
theorem Reachable.first_of_replace [DecidableEq ι] {host : Host (Ledger σ ι) ι}
    (hb : Bookkeeping host) (hh : host.Unobtrusive) {w : World (Ledger σ ι) ι}
    (hw : Reachable host w) (hi : i < w.scripts.size) {root : Node} (hroot : root.children ≠ []) :
    ∃ t, ((w.script i).replace root).statementAt? 0 = some t ∧
      ((w.script i).activity ≠ .timingOut →
        ∀ v, Idles host i (w.modifyScript i (·.replace root)) v →
          (∀ t', Executes host i v t' ↔ t' = t ∧ ¬ (v.script i).Asleep v.now) ∧
          (¬ (v.script i).Asleep v.now →
            ∃ u, chance host i v = .ok .run u ∧ (u.script i).Stands .running) ∧
          ((v.script i).Asleep v.now →
            Cadence.tick host i v = .ok true { v with active := some i })) ∧
      ((w.script i).activity = .timingOut →
        ∃ d, (w.script i).deadline = some d ∧
          ∀ v : World (Ledger σ ι) ι, (v.script i).course = ((w.script i).replace root).course →
            ∀ t', (¬ d ≤ v.now → (Executes host i v t' ↔ t' = t)) ∧
              (d ≤ v.now → (w.script i).callback = some .giveUp →
                (Executes host i v t' ↔ t.next? = some t'))) := by
  have hs := (hw.sound hb).settled i
  obtain ⟨t, hfirst, hcursor⟩ := (w.script i).exists_first hroot
  have hnew := World.script_modifyScript_self (·.replace root) hi
  refine ⟨t, hfirst, fun hcalm v hv => ?_, fun hwait => ?_⟩
  · have hready : (v.script i).ReadyFor t := by
      refine hv.ready hh ?_
      rw [hnew]
      exact Script.readyFor_replace hs hcalm hcursor
    refine ⟨executes_of_ready hh hready, fun hawake => ?_, tick_of_asleep host⟩
    rcases chance_of_calm host hready.settled hready.calm with
      hasleep | ⟨-, u, -, hchance, -, hstands⟩
    · exact absurd hasleep hawake
    · exact ⟨u, hchance, hstands⟩
  · obtain ⟨d, hd⟩ := Option.isSome_iff_exists.mp (hs.stands hwait).2
    refine ⟨d, hd, fun v hv t' => ?_⟩
    have halike := Script.alike_of_course hv
    have hleft := executes_of_left_wait hh (halike.cursor.trans hcursor)
      (halike.activity.trans hwait) (halike.deadline.trans hd) t'
    refine ⟨hleft.1, fun hlate hcallback => hleft.2 hlate ?_⟩
    exact halike.callback.trans hcallback

end

/-- A world in which a script is about to rest. -/
def sleepyWorld : World (Ledger Unit Unit) Unit where
  host := { own := () }
  scripts := #[.start "sleepy" drowsyRoot]
  registry := { commands := Table.empty.insert "pause" (.bundled .pause) }

theorem sleepyWorld_reachable : Reachable strictHost sleepyWorld := by
  refine .fresh sleepyWorld ?_ rfl rfl
  intro s hs
  have he : s = _ := Array.mem_singleton.mp hs
  exact ⟨_, _, he⟩

/-- Another tree is loaded while the script rests, and the clock is anywhere. -/
def dreamingWorld (now : Float) : World (Ledger Unit Unit) Unit :=
  { ((tick strictHost 0).after sleepyWorld).modifyScript 0 (·.replace stoppingRoot) with now }

theorem first_of_replace_sleepy :
    ∃ load, ∀ now t, Executes strictHost 0 (dreamingWorld now) t ↔
      t = ⟨load, ⟨wordLine 1 .stop none, [(stoppingRoot, 0)]⟩⟩ ∧
        ¬ ((dreamingWorld now).script 0).Asleep now := by
  have hrests : (((tick strictHost 0).after sleepyWorld).script 0).activity = .paused := by
    decide +kernel
  have hsize : 0 < ((tick strictHost 0).after sleepyWorld).scripts.size := by decide +kernel
  have hroot : stoppingRoot.children ≠ [] := nofun
  obtain ⟨first, hfirst, hcalm, -⟩ := Reachable.first_of_replace strictHost_bookkeeping
    strictHost_unobtrusive (.tick 0 sleepyWorld_reachable) hsize hroot
  refine ⟨(((tick strictHost 0).after sleepyWorld).script 0).load + 1, fun now t => ?_⟩
  obtain ⟨hexecutes, -, -⟩ := hcalm (by rw [hrests]; exact nofun) (dreamingWorld now)
    (.meanwhile .start rfl)
  cases hfirst
  exact hexecutes t

/-- A script that waits for what nobody will say. -/
def patientRoot : Node where
  kind := .script
  children :=
    [{ kind := .statement, line := 1
       children := [{ kind := .command, lexeme := some "waitforjournal" },
         { kind := .string, lexeme := some "ready" }, { kind := .integer, lexeme := some "100" }] }]

/-- The tree that is loaded while it waits. -/
def freshRoot : Node where
  kind := .script
  children := [wordLine 11 .command "clearjournal", wordLine 12 .command "clearjournal"]

/-- A world in which the script is about to wait. -/
def patientWorld : World Unit Unit where
  host := ()
  scripts := #[.start "patient" patientRoot]
  registry :=
    { commands := (Table.empty.insert "clearjournal" (.bundled .clearJournal)).insert
        "waitforjournal" (.bundled .waitForJournal) }

/-- Another tree is loaded after the script has begun to wait, and then the deadline passes. -/
def reloadedWorld : World Unit Unit :=
  { ((tick quietHost 0).after patientWorld).modifyScript 0 (·.replace freshRoot) with now := 100 }

/-- **A wait that is left from an old tree skips the first statement of the new one.** -/
theorem skips_first_of_reloaded :
    (reloadedWorld.script 0).currentLine = 11 ∧
      ((tick quietHost 0).after reloadedWorld).log.entries.map LogEntry.line = [1, 12] := by
  decide +kernel

end Cadence
