/-
  STEPS — the log grows by them, and by nothing else.

  A statement that comes to be run is noted, with the number that is next; no other part of a tick
  writes the log.  So if whatever a host supplies changes the log by steps only, perhaps because it
  ticks scripts itself, then so does a tick, whether it fails or not (`grows_tick`).

  `Logged host m es w` are the runs over any number of scripts from a log with room for `m` steps, with
  the steps `es` that were noted on the way; between two ticks anything may happen that leaves the
  log.  Every run can go on with every tick (`Logged.exists_tick`), and the log always holds what it
  should of its history (`Logged.holds`).
-/
import Cadence.Proofs.Logging.Window
import Cadence.Proofs.Running.Trip

namespace Cadence

open ScriptM

variable {σ ι : Type}

/-! ## Growing -/

/-- The log has grown by steps, if at all. -/
def Grows (w w' : World σ ι) : Prop := ∃ es, StepLog.Recorded es w.log w'.log

theorem Grows.of_same {w w' : World σ ι} (h : w'.log = w.log) : Grows w w' :=
  ⟨[], h ▸ .none w.log⟩

theorem grows_steers (i : Nat) : Steers (Grows (σ := σ) (ι := ι)) i where
  trans := fun ⟨_, h⟩ ⟨_, k⟩ => ⟨_, h.trans k⟩
  slight h := .of_same h.log
  place _ _ _ := .of_same rfl
  settle _ := .of_same rfl

theorem grows_tolerant : Tolerant (Grows (σ := σ) (ι := ι)) := (grows_steers 0).toTolerant

theorem grows_bundled : Bundled.Keeps (Grows (σ := σ) (ι := ι)) :=
  .of_scripts grows_tolerant fun _ _ _ => .of_same rfl

/-- The step that is noted where a statement comes to be run. -/
def World.stepOf (w : World σ ι) (i : Nat) (t : Statement) : LogEntry :=
  w.log.entry (w.script i).name t.line t.site.node.render
    (if w.verbose then some (w.script i).snapshot else none)

theorem logStep_apply (i : Nat) (t : Statement) (w : World σ ι) :
    logStep i t w = .ok (w.stepOf i t) { w with log := w.log.record (w.stepOf i t) } := rfl

/-- **The log is written by noting a step.** -/
theorem grows_logStep (i : Nat) (t : Statement) :
    Keeps Grows (logStep i t : ScriptM σ ι LogEntry) := by
  intro w
  rw [after_of_ok (logStep_apply i t w)]
  exact ⟨_, .more (.none w.log) rfl⟩

variable {host : Host σ ι} {m : Nat} {es : List LogEntry} {w : World σ ι}

/-- A tick writes the log by steps only, if whatever the host supplies does so. -/
theorem grows_tick (hh : host.KeepsThroughout Grows) (i : Nat) : Keeps Grows (tick host i) := by
  refine keeps_tick_of_next host i grows_tolerant (grows_logStep i) (fun _ => .of_same rfl) hh.around
    ?_ (keeps_executeNext (grows_steers i) hh.around.serves grows_bundled hh.command)
  exact keeps_chance host i grows_tolerant (fun _ => .of_same rfl) (fun _ => .of_same rfl)
    (fun _ => .of_same rfl) (fun _ => .of_same rfl) hh.callback

/-! ## Runs -/

/-- **A run over any number of scripts** from a log with room for `m` steps: ticks, which may fail,
and between them anything that leaves the log.  The steps that were noted on the way are `es`. -/
inductive Logged (host : Host σ ι) (m : Nat) : List LogEntry → World σ ι → Prop where
  /-- The log is empty at first. -/
  | start {w : World σ ι} (fresh : w.log = { capacity := m }) : Logged host m [] w
  /-- A script is given its chance. -/
  | tick {es fs : List LogEntry} {w : World σ ι} (h : Logged host m es w) (i : Nat)
      (steps : StepLog.Recorded fs w.log ((tick host i).after w).log) :
      Logged host m (es ++ fs) ((tick host i).after w)
  /-- The host does something else. -/
  | meanwhile {es : List LogEntry} {w w' : World σ ι} (h : Logged host m es w)
      (same : w'.log = w.log) : Logged host m es w'

/-- A run can go on with any tick. -/
theorem Logged.exists_tick (h : Logged host m es w) (hh : host.KeepsThroughout Grows) (i : Nat) :
    ∃ fs, Logged host m (es ++ fs) ((Cadence.tick host i).after w) := by
  obtain ⟨fs, hfs⟩ := grows_tick hh i w
  exact ⟨fs, .tick h i hfs⟩

/-- **After any run the log holds what it should of the history.** -/
theorem Logged.holds (h : Logged host m es w) : StepLog.Holds m es w.log := by
  induction h with
  | start fresh => exact fresh ▸ .empty m
  | tick h i steps ih => exact ih.recorded steps
  | meanwhile h same ih => exact same ▸ ih

end Cadence
