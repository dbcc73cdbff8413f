/-
  RECORDING — a host that notes which of its handlers are called, and what is bound then.

  A host keeps whatever it likes.  The recording host keeps, beside what the original host keeps, a
  list of the calls of commands and expressions, in their order, each with the variables that are
  seen at the call.  Apart from that it is the original host: nothing that is called can see the
  list (`ScriptM.beside`), so it leaves a script where it is when the original host does
  (`Host.Discreet.recording`).
-/
import Cadence.Proofs.Meaning.Ticking

namespace Cadence

open ScriptM

/-- A call of a handler. -/
structure NotedCall (ι : Type) where
  /-- Is it a command, or an expression? -/
  command : Bool
  /-- What the host calls the handler. -/
  token : ι
  /-- The word that was written. -/
  word : String
  /-- The arguments. -/
  args : List Argument
  /-- Was the handler asked to be quiet? -/
  quiet : Bool
  /-- Was it asked to insist? -/
  force : Bool
  /-- What is bound, innermost first. -/
  seen : List (Table Argument)

section

variable {σ τ ρ ι α : Type}

/-- The world of another host. -/
def World.withHost (w : World σ ι) (host : τ) : World τ ι where
  host
  now := w.now
  scripts := w.scripts
  active := w.active
  registry := w.registry
  aliases := w.aliases
  lists := w.lists
  timers := w.timers
  log := w.log
  verbose := w.verbose

/-- An operation of a host, done by a host that keeps more. -/
def ScriptM.beside (x : ScriptM σ ι α) : ScriptM (σ × ρ) ι α := fun w =>
  match x (w.withHost w.host.1) with
  | .ok a u => .ok a (u.withHost (u.host, w.host.2))
  | .error fault u => .error fault (u.withHost (u.host, w.host.2))

/-- Adds a call to those that are kept. -/
def note (c : NotedCall ι) : ScriptM (σ × List (NotedCall ι)) ι Unit :=
  modify fun w => { w with host := (w.host.1, w.host.2 ++ [c]) }

/-- The host that notes the calls, with what is bound in a script at each of them. -/
def Host.recording (host : Host σ ι) (i : Nat) : Host (σ × List (NotedCall ι)) ι where
  command token word args quiet force := do
    note ⟨true, token, word, args, quiet, force, (← script i).frames.bindings⟩
    beside (host.command token word args quiet force)
  expression token word args quiet := do
    note ⟨false, token, word, args, quiet, false, (← script i).frames.bindings⟩
    beside (host.expression token word args quiet)
  computedAlias token name := beside (host.computedAlias token name)
  listener token e := beside (host.listener token e)
  rule token c := beside (host.rule token c)
  callback token := beside (host.callback token)
  write line := beside (host.write line)
  patience := host.patience

/-- The world of a recording host that has noted nothing yet. -/
def World.recording (w : World σ ι) : World (σ × List (NotedCall ι)) ι := w.withHost (w.host, [])

/-- The calls that are noted in the course of an operation, whether it fails or not. -/
def calls (x : ScriptM (σ × List (NotedCall ι)) ι α) (w : World σ ι) : List (NotedCall ι) :=
  (x.after w.recording).host.2

/-! ## Recording moves no script -/

variable {host : Host σ ι} {i : Nat} {T : Tree}

/-- What is kept beside stays where it is, whether the operation fails or not. -/
theorem after_beside (x : ScriptM σ ι α) (w : World (σ × ρ) ι) :
    (beside x).after w = (x.after (w.withHost w.host.1)).withHost
      ((x.after (w.withHost w.host.1)).host, w.host.2) := by
  unfold ScriptM.after beside
  cases x (w.withHost w.host.1) with
  | ok a u => rfl
  | error fault u => rfl

theorem beside_of_ok {x : ScriptM σ ι α} {w : World (σ × ρ) ι} {u : World σ ι} {a : α}
    (h : x (w.withHost w.host.1) = .ok a u) :
    beside x w = .ok a (u.withHost (u.host, w.host.2)) := by
  unfold beside
  rw [h]

theorem keeps_beside {x : ScriptM σ ι α} (h : Keeps (Steady T i) x) :
    Keeps (Steady T i) (beside x : ScriptM (σ × ρ) ι α) := by
  intro w
  have hs := h (w.withHost w.host.1)
  rw [after_beside]
  exact ⟨⟨⟨hs.size, hs.root, hs.load, hs.links, hs.starts⟩, hs.cursor⟩, hs.frames, hs.activity,
    hs.tame⟩

theorem keeps_note (c : NotedCall ι) :
    Keeps (Steady T i) (note c : ScriptM (σ × List (NotedCall ι)) ι Unit) :=
  .modify fun _ => ⟨⟨⟨id, rfl, rfl, rfl, rfl⟩, rfl⟩, rfl, rfl, id⟩

/-- Who leaves a script where it is does so under record. -/
theorem Host.Discreet.recording (h : host.Discreet T i) : (host.recording i).Discreet T i := by
  have hL := steady_lenient (σ := σ × List (NotedCall ι)) (ι := ι) T i
  refine ⟨⟨fun t word args quiet => ?_, ?_, ?_, ?_, ?_⟩, fun t word args quiet force => ?_⟩
  · refine .bind hL (.script hL i) fun s => .bind hL (keeps_note _) fun _ => ?_
    exact keeps_beside (h.expression t word args quiet)
  · exact fun t name => keeps_beside (h.computedAlias t name)
  · exact fun t e => keeps_beside (h.listener t e)
  · exact fun t c => keeps_beside (h.rule t c)
  · exact fun line => keeps_beside (h.write line)
  · refine .bind hL (.script hL i) fun s => .bind hL (keeps_note _) fun _ => ?_
    exact keeps_beside (h.command t word args quiet force)

end

end Cadence
