/-
  RESOLVING — to resolve an argument leaves alone what computed aliases leave alone.

  An argument is resolved by looking: at the variables of its script, at the aliases, and at its
  text.  Only a computed alias may do more than look.  So for any relation that holds where nothing
  has happened and goes from step to step (`Stepwise`), if the computed aliases keep it then every
  way to resolve an argument keeps it, and so does the making of an entry for a list.

  The narrowest such relation is equality, which pure aliases keep; a wider one is that some list is
  the same as before.
-/
import Cadence.Bundled.Handlers
import Cadence.Proofs.Running.Keeping

namespace Cadence

open ScriptM

variable {σ ι α β : Type}

/-! ## Readings -/

theorem reading_of_ok {f : World σ ι → Except Fault α} {w : World σ ι} {a : α}
    (h : f w = .ok a) : reading f w = .ok a w := by
  rw [reading_apply, h]

theorem reading_of_error {f : World σ ι → Except Fault α} {w : World σ ι} {fault : Fault}
    (h : f w = .error fault) : reading f w = .error fault w := by
  rw [reading_apply, h]

/-- What was read from the world is in it. -/
theorem ok_of_reading {f : World σ ι → Except Fault α} {w u : World σ ι} {a : α}
    (h : reading f w = .ok a u) : f w = .ok a ∧ u = w := by
  cases hf : f w with
  | ok b =>
    cases (reading_of_ok hf).symm.trans h
    exact ⟨rfl, rfl⟩
  | error fault => cases (reading_of_error hf).symm.trans h

/-- The world becomes what was read from it, if it could be read. -/
theorem after_reading_set (f : World σ ι → Except Fault (World σ ι)) (w : World σ ι) :
    (do set (← reading f) : ScriptM σ ι Unit).after w = (f w).toOption.getD w := by
  cases hf : f w with
  | ok w' => exact after_bind_of_ok (reading_of_ok hf)
  | error fault => exact after_bind_of_error (reading_of_error hf)

/-- A change for which a text is resolved first. -/
theorem after_string_bind (a : Argument) (f : String → ScriptM σ ι α) (w : World σ ι) :
    (Bundled.string a >>= f).after w = match w.asString a with
      | .ok t => (f t).after w
      | .error _ => w := by
  cases h : w.asString a with
  | ok t => exact after_bind_of_ok (reading_of_ok (f := fun w => w.asString a) h)
  | error fault => exact after_bind_of_error (reading_of_error (f := fun w => w.asString a) h)

/-- A change that is then reported ends where the change ends. -/
theorem after_report (x : ScriptM σ ι α) (b : β) (w : World σ ι) :
    (do let _ ← x; return b : ScriptM σ ι β).after w = x.after w := by
  cases h : x w with
  | ok a u =>
    rw [after_bind_of_ok h, after_of_ok h]
    rfl
  | error fault u => rw [after_bind_of_error h, after_of_error h]

/-! ## Relations that go from step to step -/

/-- The relation holds where nothing happens, and goes from step to step. -/
structure Stepwise (R : World σ ι → World σ ι → Prop) : Prop where
  /-- It holds where nothing happens. -/
  refl : ∀ w, R w w
  /-- It goes from step to step. -/
  trans : ∀ {u v w}, R u v → R v w → R u w

namespace Stepwise

variable {R : World σ ι → World σ ι → Prop} (hR : Stepwise R)
include hR

/-! ## Looking -/

theorem pure (a : α) : Keeps R (Pure.pure a : ScriptM σ ι α) := fun w => hR.refl w

theorem throw (fault : Fault) : Keeps R (MonadExcept.throw fault : ScriptM σ ι α) :=
  fun w => hR.refl w

theorem get : Keeps R (MonadState.get : ScriptM σ ι (World σ ι)) := fun w => hR.refl w

theorem script (i : Nat) : Keeps R (script i : ScriptM σ ι (Script ι)) := fun w => hR.refl w

theorem lift (r : Except Fault α) : Keeps R (lift r : ScriptM σ ι α) := by
  cases r with
  | ok a => exact hR.pure a
  | error fault => exact hR.throw fault

theorem reading (f : World σ ι → Except Fault α) : Keeps R (reading f) := by
  intro w
  rw [after_reading]
  exact hR.refl w

theorem bind {x : ScriptM σ ι α} {f : α → ScriptM σ ι β} (hx : Keeps R x)
    (hf : ∀ a, Keeps R (f a)) : Keeps R (x >>= f) :=
  hx.seq hf id hR.trans

theorem requireActive (action : String) : Keeps R (requireActive action : ScriptM σ ι Nat) := by
  unfold ScriptM.requireActive
  refine hR.bind hR.get fun w => ?_
  split
  · exact hR.pure _
  · exact hR.throw _

/-! ## Texts and numbers -/

theorem string (a : Argument) : Keeps R (Bundled.string a : ScriptM σ ι String) := hR.reading _

theorem int (a : Argument) : Keeps R (Bundled.int a : ScriptM σ ι Int) := hR.reading _

theorem strings (args : List Argument) :
    Keeps R (Bundled.strings args : ScriptM σ ι (List String)) := by
  induction args with
  | nil => exact hR.pure _
  | cons a rest ih => exact hR.bind (hR.string a) fun _ => hR.bind ih fun _ => hR.pure _

/-! ## Numbers of objects -/

variable {host : Host σ ι} (h : ∀ token name, Keeps R (host.computedAlias token name))
include h

theorem getAlias (name : String) : Keeps R (getAlias host name) := by
  have stored : Keeps R (do
      return ((← MonadState.get).aliases.get? name).getD .null : ScriptM σ ι Value) :=
    hR.bind hR.get fun _ => hR.pure _
  unfold ScriptM.getAlias
  refine hR.bind hR.get fun w => ?_
  cases w.registry.aliases.get? name with
  | none => exact stored
  | some token =>
    refine hR.bind (h token name) fun v => ?_
    cases v with
    | null => exact stored
    | _ => exact hR.pure _

theorem asSerial (a : Argument) : Keeps R (asSerial host a) := by
  unfold ScriptM.asSerial
  refine hR.bind (hR.reading _) fun p => hR.bind (hR.getAlias h p.1) fun v => ?_
  cases v with
  | null => exact hR.bind (hR.lift _) fun _ => hR.pure _
  | _ => exact hR.pure _

theorem isSerial (a : Argument) : Keeps R (isSerial host a) := by
  unfold ScriptM.isSerial
  refine hR.bind (hR.reading _) fun e => ?_
  cases e.lexeme with
  | none => exact hR.pure _
  | some t =>
    refine hR.bind (hR.getAlias h t) fun v => ?_
    cases v with
    | null =>
      simp only
      split
      · exact hR.pure _
      · exact hR.pure _
      · exact hR.throw _
    | _ => exact hR.pure _

/-- An entry for a list is made by resolving its argument. -/
theorem listEntry (a : Argument) : Keeps R (Bundled.listEntry host a) := by
  unfold Bundled.listEntry
  refine hR.bind (hR.isSerial h a) fun serial => .ite ?_ (hR.pure a)
  refine hR.bind (hR.asSerial h a) fun v => hR.bind (hR.lift _) fun digits => hR.pure _

end Stepwise

end Cadence
