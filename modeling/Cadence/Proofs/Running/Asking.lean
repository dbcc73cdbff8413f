/-
  ASKING — a statement that asks a bundled command of its script.

  The word of such a statement is that of the command, and behind its arguments nothing is left over
  (`Statement.Asks`).  To run the statement is to run the command, and to go on if the command says
  so (`executeStatement_of_asks`).

  What the statement does to its script is what the tick does (`tick_of_does`).
-/
import Cadence.Proofs.Running.Undisturbed

namespace Cadence

open ScriptM

section

variable {σ ι : Type}

/-! ## Arguments -/

/-- A chain of bindings depends on what the names are bound to. -/
theorem follow?_congr {w w' : World σ ι}
    (h : ∀ j name, (w'.script j).lookup name = (w.script j).lookup name) (steps : Nat)
    (a : Argument) : w'.follow? steps a = w.follow? steps a := by
  have hbound : ∀ a, w'.boundTo? a = w.boundTo? a := by
    intro a
    unfold World.boundTo?
    split
    · rfl
    · rw [h]
  induction steps generalizing a with
  | zero => rfl
  | succ steps ih =>
    unfold World.follow?
    rw [hbound]
    cases w.boundTo? a with
    | none => rfl
    | some b => exact ih b

theorem resolveText_of_lookup {w w' : World σ ι}
    (h : ∀ j name, (w'.script j).lookup name = (w.script j).lookup name)
    (hcount : w'.bindingCount = w.bindingCount) (reading : Reading) (a : Argument) :
    w'.resolveText reading a = w.resolveText reading a := by
  unfold World.resolveText World.resolve
  rw [hcount, follow?_congr h]

/-- What an argument resolves to depends on the scripts only. -/
theorem resolveText_congr {w w' : World σ ι} (h : w'.scripts = w.scripts) (reading : Reading)
    (a : Argument) : w'.resolveText reading a = w.resolveText reading a := by
  refine resolveText_of_lookup (fun j name => ?_) ?_ reading a
  · unfold World.script
    rw [h]
  · unfold World.bindingCount
    rw [h]

/-- A text that is bound to nothing means itself. -/
theorem resolveText_of_unbound {w : World σ ι} {a : Argument} {text : String}
    (ha : a.lexeme = some text) (h : (w.script a.owner).lookup text = none) (reading : Reading) :
    w.resolveText reading a = .ok (text, a.site) := by
  have hbound : w.boundTo? a = none := by
    unfold World.boundTo?
    rw [ha]
    simp only
    rw [h]
  have hfollow : w.follow? (w.bindingCount + 1) a = some a := by
    unfold World.follow?
    rw [hbound]
  unfold World.resolveText World.resolve
  rw [hfollow]
  simp only
  rw [ha]

theorem asInt_congr {w w' : World σ ι} (h : w'.scripts = w.scripts) (a : Argument) :
    w'.asInt a = w.asInt a := by
  unfold World.asInt World.read
  rw [resolveText_congr h]

theorem asString_congr {w w' : World σ ι} (h : w'.scripts = w.scripts) (a : Argument) :
    w'.asString a = w.asString a := by
  unfold World.asString
  rw [resolveText_congr h]

theorem int_of_asInt {w : World σ ι} {a : Argument} {n : Int} (h : w.asInt a = .ok n) :
    Bundled.int a w = .ok n w := by
  show reading _ w = _
  rw [reading_apply, h]

theorem string_of_asString {w : World σ ι} {a : Argument} {t : String}
    (h : w.asString a = .ok t) : Bundled.string a w = .ok t w := by
  show reading _ w = _
  rw [reading_apply, h]

/-! ## The statement -/

/-- A statement asks a bundled command, with these arguments. -/
structure Statement.Asks (i : Nat) (c : Bundled.Command) (args : List Argument) (w : World σ ι)
    (a : Statement) : Prop where
  /-- It is a statement. -/
  statement : a.site.kind = .statement
  /-- It is a command. -/
  command : a.isCommand = true
  /-- Its word is that of the command, and the arguments are all there is behind it. -/
  word : ∃ site word rest,
    keyword? (takeMarks {} a.site.children).2 = some (site, word, rest) ∧
    w.registry.commands.get? word = some (.bundled c) ∧ takeArguments i rest = (args, [])

variable {host : Host σ ι} {i : Nat} {c : Bundled.Command} {args : List Argument} {a : Statement}

theorem Statement.Asks.congr {w w' : World σ ι} (ha : a.Asks i c args w)
    (h : w'.registry.commands = w.registry.commands) : a.Asks i c args w' := by
  obtain ⟨site, word, rest, hword, hget, hargs⟩ := ha.word
  refine ⟨ha.statement, ha.command, site, word, rest, hword, ?_, hargs⟩
  rw [h]
  exact hget

variable (host)

/-- A command is run, and the script goes on if the command says so. -/
theorem executeStatement_of_command (hs : a.site.kind = .statement) (hc : a.isCommand = true) :
    executeStatement host i a = (do
      if ← executeCommand host i a.site.children then advance i) := by
  obtain ⟨head, hhead, hkind⟩ := Statement.isCommand_iff.mp hc
  unfold executeStatement
  rw [if_neg (not_not_intro hs), hhead]
  simp only
  unfold executeHead
  rcases hkind with h | h | h | h <;> rw [h]

theorem executeCommand_of_asks {w : World σ ι} (ha : a.Asks i c args w) :
    executeCommand host i a.site.children w =
      Bundled.runCommand host c args (takeMarks {} a.site.children).1.force w := by
  obtain ⟨site, word, rest, hword, hget, hargs⟩ := ha.word
  unfold executeCommand
  simp only [hword]
  rw [get_bind, hget]
  simp only [hargs]
  rfl

/-- To run the statement is to run the command. -/
theorem executeStatement_of_asks {w : World σ ι} (ha : a.Asks i c args w) :
    executeStatement host i a w = (do
      if ← Bundled.runCommand host c args (takeMarks {} a.site.children).1.force
        then advance i : ScriptM σ ι Unit) w := by
  rw [executeStatement_of_command host ha.statement ha.command, bind_apply, bind_apply,
    executeCommand_of_asks host ha]

variable {host}

/-! ## The tick -/

/-- **What the statement does to its script is what the tick does.** -/
theorem tick_of_does (hh : host.Unobtrusive) {w u : World σ ι} {f : Script ι → Script ι}
    (hi : i < u.scripts.size) (hchance : chance host i w = .ok .run u)
    (hcursor : (u.script i).cursor = some a)
    (hdoes : ∀ v, Undisturbed u v → executeStatement host i a v = .ok () (v.modifyScript i f)) :
    ∃ w', tick host i w = .ok (f (u.script i)).isRunning w' ∧ w'.script i = f (u.script i) ∧
      Unmoved (u.modifyScript i f) w' := by
  obtain ⟨v, huv, hok, -⟩ := step_executes hh hcursor
  obtain ⟨w', hstep, hw'⟩ := hok _ (hdoes v huv)
  have hmodify : Unmoved (u.modifyScript i f) (v.modifyScript i f) :=
    ⟨congrArg (·.modify i f) huv.scripts, huv.now, huv.commands⟩
  have hscript : (v.modifyScript i f).script i = f (u.script i) :=
    (hmodify.script i).trans (World.script_modifyScript_self f hi)
  refine ⟨w', ?_, (hw'.script i).trans hscript, hmodify.trans hw'⟩
  rw [tick_of_chance host hchance, hstep, hscript]

end

end Cadence
