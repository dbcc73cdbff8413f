/-
  APART — what is done for one script leaves every other script as it is.

  Scripts share the stores, and a list may hold arguments that belong to another script, so that
  running one script looks into another.  It never writes there: whatever moves or suspends a
  script does so to the script of the tick, by its number, or to the active one, which during a tick
  is the same unless a handler says otherwise.

  1. **The relation** — a script that is not active stays so, and stays as it is (`Apart`).  It
     tolerates the shared stores, and a change of any other script, so all that a statement does
     keeps it.

  2. **The active script** — a bundled command that moves or suspends a script asks which one is
     active first (`keeps_onActive`).  So does every operation that a host is offered for the active
     script (`Helper`), and those that end its activity.

  3. **The result** — `Aloof.leaves_others`: neither a tick of another script nor anything that
     is asked of the active one changes a script, field by field.
-/
import Cadence.Proofs.Running.Trip

namespace Cadence

open ScriptM

section

variable {σ ι α : Type}

/-- A script that is not active stays so, and stays as it is. -/
def Apart (a : Nat) (w w' : World σ ι) : Prop :=
  w.active ≠ some a → w'.active ≠ some a ∧ w'.script a = w.script a

variable {a b : Nat}

theorem apart_tolerant (a : Nat) : Tolerant (Apart (σ := σ) (ι := ι) a) where
  trans h h' ha := by
    obtain ⟨hv, hsame⟩ := h ha
    obtain ⟨hw, hsame'⟩ := h' hv
    exact ⟨hw, hsame'.trans hsame⟩
  slight h ha := ⟨h.active.symm ▸ ha, h.others a ha⟩

/-- Another script may change. -/
theorem apart_modifyScript (hba : b ≠ a) (f : Script ι → Script ι) (w : World σ ι) :
    Apart a w (w.modifyScript b f) :=
  fun ha => ⟨ha, World.script_modifyScript_of_ne f hba⟩

/-- The active script may change. -/
theorem apart_modifyActive (a : Nat) (f : Script ι → Script ι) (w : World σ ι) :
    Apart a w (w.modifyActive f) := by
  intro ha
  unfold World.modifyActive
  cases hb : w.active with
  | none => exact ⟨ha, rfl⟩
  | some b =>
    have hba : b ≠ a := fun h => ha (h ▸ hb)
    exact apart_modifyScript hba f w ha

/-- It may stop to be active. -/
theorem apart_inactive (a : Nat) (f : Script ι → Script ι) (w : World σ ι) :
    Apart a w { w.modifyActive f with active := none } :=
  fun ha => ⟨nofun, (apart_modifyActive a f w ha).2⟩

theorem apart_conducts (hba : b ≠ a) : Conducts (Apart (σ := σ) (ι := ι) a) b where
  toTolerant := apart_tolerant a
  place w _ _ := apart_modifyScript hba _ w
  settle w := apart_modifyScript hba _ w
  logged _ _ ha := ⟨ha, rfl⟩
  begun _ _ := ⟨fun h => hba (Option.some.inj h), rfl⟩
  finished _ _ := ⟨nofun, rfl⟩

/-! ## The active script -/

/-- What asks for the active script works on another one. -/
theorem keeps_onActive {action : String} {x : Nat → ScriptM σ ι α}
    (hx : ∀ b, b ≠ a → Keeps (Apart a) (x b)) : Keeps (Apart a) (requireActive action >>= x) := by
  intro w
  cases hb : w.active with
  | none =>
    rw [after_bind_of_error (requireActive_of_none hb)]
    exact (apart_tolerant a).refl w
  | some b =>
    rw [after_bind_of_ok (requireActive_of_some hb)]
    intro ha
    exact hx b (fun h => ha (h ▸ hb)) w ha

theorem apart_pause (d : Duration) : Keeps (Apart a) (pause d : ScriptM σ ι Unit) :=
  keeps_onActive fun _ hba =>
    keeps_pauseScript (apart_tolerant a) (fun _ w => apart_modifyScript hba _ w) d

theorem apart_timeout (d : Duration) (c : Option (Callback ι)) :
    Keeps (Apart a) (timeout d c : ScriptM σ ι Unit) :=
  keeps_onActive fun _ hba =>
    keeps_timeoutScript (apart_tolerant a) (fun _ w => apart_modifyScript hba _ w) d

theorem apart_gotoLine (line : Int) : Keeps (Apart a) (gotoLine line : ScriptM σ ι Bool) := by
  intro w
  cases hb : w.active with
  | none =>
    rw [after_of_ok (gotoLine_of_none hb line)]
    exact (apart_tolerant a).refl w
  | some b =>
    rw [after_congr (gotoLine_of_some hb line)]
    intro ha
    have hba : b ≠ a := fun h => ha (h ▸ hb)
    exact keeps_gotoScript (apart_tolerant a) (fun w _ _ => apart_modifyScript hba _ w) w ha

theorem apart_bundled (a : Nat) : Bundled.Keeps (Apart (σ := σ) (ι := ι) a) where
  pause d := apart_pause d
  wait d := apart_timeout d _
  goto line := apart_gotoLine line
  return_ w := apart_modifyActive a _ w

/-- What a host is offered for the active script. -/
inductive Helper (ι : Type) where
  | goto (line : Int)
  | comeBack
  | ignore (v : Value)
  | clearIgnored
  | addEntry (e : JournalEntry)
  | clearJournal
  | requestTarget (requested : Bool)
  | pause (d : Duration)
  | unpause
  | timeout (d : Duration) (callback : Option (Callback ι))
  | clearTimeout
  | reset
  | stop

/-- Carries out what is asked of the active script. -/
def Helper.perform : Helper ι → ScriptM σ ι Unit
  | .goto line => do let _ ← gotoLine line
  | .comeBack => modify fun w => w.modifyActive Script.returnFromGoto
  | .ignore v => modify fun w => w.ignore v
  | .clearIgnored => modify fun w => w.modifyActive fun s => { s with ignored := [] }
  | .addEntry e => modify fun w => w.modifyActive (·.addEntry e)
  | .clearJournal => modify fun w => w.modifyActive fun s => { s with journal := [] }
  | .requestTarget requested =>
    modify fun w => w.modifyActive fun s => { s with targetRequested := requested }
  | .pause d => ScriptM.pause d
  | .unpause => ScriptM.unpause
  | .timeout d callback => ScriptM.timeout d callback
  | .clearTimeout => ScriptM.clearTimeout
  | .reset => modify World.resetActive
  | .stop => modify World.stopActive

/-- **What is asked of the active script changes no other.** -/
theorem Helper.apart (a : Nat) (h : Helper ι) :
    Keeps (Apart a) (h.perform : ScriptM σ ι Unit) := by
  have hL := apart_tolerant (σ := σ) (ι := ι) a
  have change : ∀ f : Script ι → Script ι,
      Keeps (Apart a) (modify fun w => w.modifyActive f : ScriptM σ ι Unit) :=
    fun f => .modify fun w => apart_modifyActive a f w
  cases h with
  | goto line => exact .bind hL (apart_gotoLine line) fun _ => .pure hL _
  | comeBack => exact change _
  | ignore v => exact change _
  | clearIgnored => exact change _
  | addEntry e => exact change _
  | clearJournal => exact change _
  | requestTarget requested => exact change _
  | pause d => exact apart_pause d
  | unpause =>
    exact keeps_onActive fun _ hba => .modify fun w => apart_modifyScript hba Script.unpause w
  | timeout d callback => exact apart_timeout d callback
  | clearTimeout =>
    exact keeps_onActive fun _ hba => .modify fun w => apart_modifyScript hba Script.clearTimeout w
  | reset => exact .modify fun w => apart_inactive a Script.clearTimeout w
  | stop => exact .modify fun w => apart_inactive a Script.release w

/-- What is asked of the active script keeps a relation that allows scripts to be suspended and sent
about. -/
theorem Roams.helper {R : World σ ι → World σ ι → Prop} (hR : Roams R) (h : Helper ι) :
    Keeps R (h.perform : ScriptM σ ι Unit) := by
  have hL : Tolerant R := hR.toTolerant
  have note : ∀ f : Script ι → Script ι, (∀ s, (f s).course = s.course) →
      Keeps R (modify fun w => w.modifyActive f : ScriptM σ ι Unit) :=
    fun f hf => .modify fun w => hR.slight (.modifyActive w hf)
  have suspend : ∀ f : Script ι → Script ι, Script.Suspends f → ∀ w : World σ ι,
      R w (w.modifyActive f) :=
    fun f hf => hR.modifyActive fun i => hR.suspend i hf
  cases h with
  | goto line => exact .bind hL (hR.gotoLine line) fun _ => .pure hL _
  | comeBack => exact .modify (hR.modifyActive hR.comeBack)
  | ignore v =>
    refine note _ fun s => ?_
    split
    · rfl
    · rfl
  | clearIgnored => exact note _ fun _ => rfl
  | addEntry e => exact note _ fun _ => rfl
  | clearJournal => exact note _ fun _ => rfl
  | requestTarget requested => exact note _ fun _ => rfl
  | pause d => exact hR.pause d
  | unpause =>
    exact .bind hL (keeps_requireActive hL _) fun i =>
      .modifyScript (hR.suspend i Script.suspends_unpause)
  | timeout d callback => exact hR.timeout d callback
  | clearTimeout =>
    exact .bind hL (keeps_requireActive hL _) fun i =>
      .modifyScript (hR.suspend i Script.suspends_clearTimeout)
  | reset =>
    exact fun w => hR.trans (suspend _ Script.suspends_clearTimeout w) (hR.activated none _)
  | stop =>
    exact fun w => hR.trans (suspend Script.release (fun _ => ⟨_, _, _, rfl⟩) w)
      (hR.activated none _)

/-! ## Ticks -/

/-- Nothing that a host supplies reaches for a script that is not the active one.  What the bundled
words do is not supplied by a host, so without other extensions this is about its output only. -/
structure Aloof (host : Host σ ι) (a : Nat) : Prop where
  /-- What it does around the statements. -/
  around : host.Keeps (Apart a)
  /-- What it does for commands. -/
  command : ∀ t word args quiet force, Keeps (Apart a) (host.command t word args quiet force)
  /-- What it does when a callback is asked. -/
  callback : ∀ t, Keeps (Apart a) (host.callback t)

/-- Whoever supplies nothing is aloof, if its output is. -/
theorem aloof_of_empty {host : Host σ Empty} {a : Nat}
    (hwrite : ∀ line, Keeps (Apart a) (host.write line)) : Aloof host a :=
  ⟨⟨nofun, nofun, nofun, nofun, hwrite⟩, nofun, nofun⟩

/-- A tick of another script keeps a script apart. -/
theorem Aloof.apart_tick {host : Host σ ι} (h : Aloof host a) (hba : b ≠ a) :
    Keeps (Apart a) (tick host b) := by
  have hR := apart_conducts (σ := σ) (ι := ι) hba
  refine keeps_tick_of_chance host b hR h.around (apart_bundled a) h.command ?_
  exact keeps_chance host b hR.toTolerant hR.begun (apart_modifyScript hba _)
    (apart_modifyScript hba _) (apart_modifyScript hba _) h.callback

/-- **A tick changes no other script, whether it fails or not, and what is asked of the active script
changes none but that one.** -/
theorem Aloof.leaves_others {host : Host σ ι} (h : Aloof host a) (hab : a ≠ b) :
    (∀ w, ((tick host b).after w).script a = w.script a) ∧
    ∀ (helper : Helper ι) (w : World σ ι) (j : Nat), w.active ≠ some j →
      (helper.perform.after w).script j = w.script j := by
  constructor
  · intro w
    -- the script itself may have been the active one until the tick begins
    have hstart : ({ w with active := some b } : World σ ι).active ≠ some a :=
      fun hb => hab (Option.some.inj hb).symm
    have hsame : tick host b w = tick host b { w with active := some b } := rfl
    rw [after_congr hsame]
    exact (h.apart_tick hab.symm _ hstart).2
  · intro helper w j hj
    exact (helper.apart j w hj).2

end

/-! ## A script that lends its variables -/

/-- A host that keeps what is written. -/
def printingHost : Host (List String) Empty where
  command := Empty.elim
  expression := Empty.elim
  computedAlias := Empty.elim
  listener := Empty.elim
  rule := Empty.elim
  callback := Empty.elim
  write line := modify fun w => { w with host := w.host ++ [line] }

/-- A script with a variable. -/
def lender : Script Empty :=
  (Script.start "lender" { kind := .script }).setVar "word"
    ⟨0, .root { kind := .string, lexeme := some "hello" }⟩

/-- A script that says what the elements of a list stand for. -/
def borrower : Script Empty :=
  .start "borrower"
    { kind := .script
      children :=
        [{ kind := .statement
           children := [{ kind := .forEachStart, children :=
             [{ kind := .operand, lexeme := some "v" }, { kind := .operand, lexeme := some "l" }] }] },
         { kind := .statement
           children := [{ kind := .command, lexeme := some "sysmsg" },
             { kind := .operand, lexeme := some "v" }] },
         { kind := .statement, children := [{ kind := .forEnd }] }] }

/-- The one has put its variable into a list, and the other has begun to go through the list. -/
def lendingWorld : World (List String) Empty :=
  (tick printingHost 1).after
    { host := []
      scripts := #[lender, borrower]
      registry := Registry.addBundled {}
      lists := Table.empty.insert "l" [⟨0, .root { kind := .operand, lexeme := some "word" }⟩] }

/-- The borrower says the lender's word, and the lender does not notice. -/
theorem leaves_lender :
    Aloof printingHost 0 ∧ ((tick printingHost 1).after lendingWorld).host = ["hello"] ∧
      ((tick printingHost 1).after lendingWorld).script 0 = lendingWorld.script 0 := by
  have hwrite : ∀ line, Keeps (Apart 0) (printingHost.write line) :=
    fun line => .modify fun w ha => ⟨ha, rfl⟩
  have haloof := aloof_of_empty hwrite
  refine ⟨haloof, ?_, (haloof.leaves_others (by decide)).1 _⟩
  decide +kernel

end Cadence
