/-
  KEEPING — what an operation leaves as it was, whether it fails or not.

  An operation on the world ends in some world, also when it fails (`after`).  A relation `R` from
  the world before and the world after is KEPT by an operation when it holds between the two for
  every world before.

  A relation is TOLERANT when it goes from step to step and holds wherever only the shared stores
  have changed, and what the active script has noted (`Slight`).  It is LENIENT when it does not look
  at the log and at the active script either, nor at what any script has noted (`Idle`).  A tolerant
  relation is kept by a sequence whose parts keep it (`Keeps.bind`), and any relation by what is
  built around an operation that keeps it (`Keeps.attempt`, `Keeps.mapFault`).
-/
import Cadence.World.Run

namespace Cadence

open ScriptM

/-- A script without what no statement is guided by: its journal, its ignore list and the request
for a target. -/
def Script.course {ι : Type} (s : Script ι) : Script ι :=
  { s with targetRequested := false, ignored := [], journal := [] }

section

variable {σ ι α β : Type}

/-! ## The world after an operation -/

/-- The world after an operation, whether it failed or not. -/
def ScriptM.after (x : ScriptM σ ι α) (w : World σ ι) : World σ ι :=
  match x w with
  | .ok _ w' => w'
  | .error _ w' => w'

/-- An operation keeps a relation: it holds between the world before and the world after. -/
def Keeps (R : World σ ι → World σ ι → Prop) (x : ScriptM σ ι α) : Prop := ∀ w, R w (x.after w)

/-- Only what lies beside the course of the scripts is different: the stores that all scripts
share, the log, the active script, and the journal, the ignore list and the request for a target of
each script. -/
structure Idle (w w' : World σ ι) : Prop where
  /-- The host's part is the same. -/
  host : w'.host = w.host
  /-- The clock is the same. -/
  now : w'.now = w.now
  /-- The registry is the same. -/
  registry : w'.registry = w.registry
  /-- There are as many scripts. -/
  size : w'.scripts.size = w.scripts.size
  /-- Each script stands where it stood. -/
  course : ∀ i, (w'.script i).course = (w.script i).course

/-- Even less is different: the shared stores, and what the active script has noted. -/
structure Slight (w w' : World σ ι) : Prop extends Idle w w' where
  /-- The log is the same. -/
  log : w'.log = w.log
  /-- The same script is active. -/
  active : w'.active = w.active
  /-- The other scripts are the same. -/
  others : ∀ i, w.active ≠ some i → w'.script i = w.script i

/-- A relation that does not look at the shared stores, nor at what the active script has noted. -/
structure Tolerant (R : World σ ι → World σ ι → Prop) : Prop where
  /-- It goes from step to step. -/
  trans : ∀ {u v w}, R u v → R v w → R u w
  /-- It holds where hardly anything is different. -/
  slight : ∀ {w w'}, Slight w w' → R w w'

/-- A relation that does not look at what lies beside the course of the scripts. -/
structure Lenient (R : World σ ι → World σ ι → Prop) : Prop extends Tolerant R where
  /-- It holds where nothing moves. -/
  idle : ∀ {w w'}, Idle w w' → R w w'
  slight h := idle h.toIdle

instance {R : World σ ι → World σ ι → Prop} : Coe (Lenient R) (Tolerant R) :=
  ⟨Lenient.toTolerant⟩

theorem Idle.refl (w : World σ ι) : Idle w w := ⟨rfl, rfl, rfl, rfl, fun _ => rfl⟩

/-- The shared stores are no part of what is looked at. -/
theorem Slight.stores (w : World σ ι) (aliases : Table Value) (lists : Table (List Argument))
    (timers : Table Float) : Slight w { w with aliases, lists, timers } :=
  ⟨⟨rfl, rfl, rfl, rfl, fun _ => rfl⟩, rfl, rfl, fun _ _ => rfl⟩

theorem Slight.refl (w : World σ ι) : Slight w w := .stores w w.aliases w.lists w.timers

theorem Tolerant.refl {R : World σ ι → World σ ι → Prop} (hR : Tolerant R) (w : World σ ι) :
    R w w :=
  hR.slight (.refl w)

theorem Lenient.logged {R : World σ ι → World σ ι → Prop} (hR : Lenient R) (w : World σ ι)
    (log : StepLog) : R w { w with log } :=
  hR.idle ⟨rfl, rfl, rfl, rfl, fun _ => rfl⟩

theorem Lenient.activated {R : World σ ι → World σ ι → Prop} (hR : Lenient R)
    (active : Option Nat) (w : World σ ι) : R w { w with active } :=
  hR.idle ⟨rfl, rfl, rfl, rfl, fun _ => rfl⟩

/-! ## Scripts by number -/

namespace World

theorem script_modifyScript_self {w : World σ ι} {i : Nat} (f : Script ι → Script ι)
    (hi : i < w.scripts.size) : (w.modifyScript i f).script i = f (w.script i) := by
  simp [script, modifyScript, Array.getD_eq_getD_getElem?, Array.getElem_modify_self, hi]

theorem script_modifyScript_of_ne {w : World σ ι} {i j : Nat} (f : Script ι → Script ι)
    (hij : i ≠ j) : (w.modifyScript i f).script j = w.script j := by
  simp [script, modifyScript, Array.getD_eq_getD_getElem?, Array.getElem?_modify, hij]

theorem script_of_size_le {w : World σ ι} {i : Nat} (hi : w.scripts.size ≤ i) :
    w.script i = default := by
  simp [script, Array.getD_eq_getD_getElem?, hi]

/-- A number without a script changes nothing. -/
theorem modifyScript_of_size_le {w : World σ ι} {i : Nat} (f : Script ι → Script ι)
    (hi : w.scripts.size ≤ i) : w.modifyScript i f = w := by
  have h : w.scripts.modify i f = w.scripts := by
    apply Array.ext
    · simp
    · intro j h₁ h₂
      rw [Array.getElem_modify, if_neg (by omega)]
  unfold modifyScript
  rw [h]

/-- A change that leaves a script as it is changes nothing. -/
theorem modifyScript_of_same {w : World σ ι} {i : Nat} {f : Script ι → Script ι}
    (h : f (w.script i) = w.script i) : w.modifyScript i f = w := by
  have hscripts : w.scripts.modify i f = w.scripts := by
    apply Array.ext
    · simp
    · intro j h₁ h₂
      rw [Array.getElem_modify]
      split
      · rename_i hij
        subst hij
        rw [script, Array.getD_eq_getD_getElem?, Array.getElem?_eq_getElem h₂] at h
        exact h
      · rfl
  unfold modifyScript
  rw [hscripts]

@[simp] theorem size_modifyScript (w : World σ ι) (i : Nat) (f : Script ι → Script ι) :
    (w.modifyScript i f).scripts.size = w.scripts.size := by
  simp [modifyScript]

/-- What a change of one script does to each script: a number without a script stays without. -/
theorem script_modifyScript (w : World σ ι) (i j : Nat) (f : Script ι → Script ι) :
    (w.modifyScript i f).script j =
      if i = j ∧ i < w.scripts.size then f (w.script j) else w.script j := by
  by_cases hij : i = j
  · subst hij
    by_cases hi : i < w.scripts.size
    · rw [script_modifyScript_self f hi, if_pos ⟨rfl, hi⟩]
    · have hle : w.scripts.size ≤ i := Nat.le_of_not_lt hi
      have hsize : (w.modifyScript i f).scripts.size ≤ i := by simpa using hle
      rw [if_neg (fun h => hi h.2), script_of_size_le hsize, script_of_size_le hle]
  · rw [script_modifyScript_of_ne f hij, if_neg (fun h => hij h.1)]

/-- A new script gets the next number. -/
theorem script_push (w : World σ ι) (s : Script ι) (j : Nat) :
    World.script { w with scripts := w.scripts.push s } j =
      if j = w.scripts.size then s else w.script j := by
  show (w.scripts.push s).getD j default = _
  rw [Array.getD_eq_getD_getElem?, Array.getElem?_push]
  split
  · rfl
  · rw [World.script, Array.getD_eq_getD_getElem?]

/-- Two changes of one script are one change. -/
theorem modifyScript_modifyScript (w : World σ ι) (i : Nat) (f g : Script ι → Script ι) :
    (w.modifyScript i f).modifyScript i g = w.modifyScript i fun s => g (f s) := by
  have h : (w.scripts.modify i f).modify i g = w.scripts.modify i fun s => g (f s) := by
    apply Array.ext
    · simp
    · intro j h₁ h₂
      simp only [Array.getElem_modify]
      split
      · rfl
      · rfl
  show { w with scripts := (w.scripts.modify i f).modify i g } = _
  rw [h]
  rfl

end World

/-- A change that leaves the course of a script alone. -/
theorem Idle.modifyScript (w : World σ ι) (i : Nat) {f : Script ι → Script ι}
    (hf : ∀ s, (f s).course = s.course) : Idle w (w.modifyScript i f) := by
  refine ⟨rfl, rfl, rfl, by simp, fun j => ?_⟩
  rw [World.script_modifyScript]
  by_cases h : i = j ∧ i < w.scripts.size
  · rw [if_pos h, hf]
  · rw [if_neg h]

/-- So it is where the active script notes something. -/
theorem Slight.modifyActive (w : World σ ι) {f : Script ι → Script ι}
    (hf : ∀ s, (f s).course = s.course) : Slight w (w.modifyActive f) := by
  unfold World.modifyActive
  cases h : w.active with
  | none => exact .refl w
  | some i =>
    refine ⟨.modifyScript w i hf, rfl, rfl, fun j hj => ?_⟩
    exact World.script_modifyScript_of_ne f fun hij => hj (hij ▸ h)

/-! ## What is told of a script -/

/-- What a function tells of a script is the same as before. -/
def Same (tells : Script ι → β) (i : Nat) (w w' : World σ ι) : Prop :=
  tells (w'.script i) = tells (w.script i)

section

variable {tells : Script ι → β}

/-- What lies on the course of a script is the same where nothing moves. -/
theorem Idle.same {w w' : World σ ι} (h : Idle w w') (tells : Script ι → β)
    (htells : ∀ s, tells s.course = tells s) (i : Nat) : Same tells i w w' := by
  unfold Same
  rw [← htells (w'.script i), h.course i, htells]

theorem same_lenient (tells : Script ι → β) (htells : ∀ s, tells s.course = tells s) (i : Nat) :
    Lenient (Same (σ := σ) tells i) where
  trans h h' := h'.trans h
  idle h := h.same tells htells i

/-- A change of some script that leaves what is told of it. -/
theorem same_of_tells (i j : Nat) {f : Script ι → Script ι} (w : World σ ι)
    (hf : tells (f (w.script j)) = tells (w.script j)) : Same tells i w (w.modifyScript j f) := by
  unfold Same
  rw [World.script_modifyScript]
  split
  · next hij => exact hij.1 ▸ hf
  · rfl

theorem same_modifyScript (i j : Nat) {f : Script ι → Script ι} (w : World σ ι)
    (hf : ∀ s, tells (f s) = tells s) : Same tells i w (w.modifyScript j f) :=
  same_of_tells i j w (hf _)

end

/-! ## Sequencing -/

namespace ScriptM

theorem after_of_ok {x : ScriptM σ ι α} {w w' : World σ ι} {a : α} (h : x w = .ok a w') :
    x.after w = w' := by
  rw [after, h]

theorem after_of_error {x : ScriptM σ ι α} {w w' : World σ ι} {fault : Fault}
    (h : x w = .error fault w') : x.after w = w' := by
  rw [after, h]

/-- Operations that do the same end in the same world. -/
theorem after_congr {x : ScriptM σ ι α} {y : ScriptM σ ι α} {u w : World σ ι} (h : x u = y w) :
    x.after u = y.after w := by
  unfold ScriptM.after
  rw [h]

/-- A sequence runs its first operation, and its second if the first went well. -/
theorem bind_apply (x : ScriptM σ ι α) (f : α → ScriptM σ ι β) (w : World σ ι) :
    (x >>= f) w = match x w with
      | .ok a u => f a u
      | .error fault u => .error fault u := by
  show EStateM.bind x f w = _
  unfold EStateM.bind
  cases x w with
  | ok a u => rfl
  | error fault u => rfl

theorem bind_of_ok {x : ScriptM σ ι α} {f : α → ScriptM σ ι β} {w u : World σ ι} {a : α}
    (h : x w = .ok a u) : (x >>= f) w = f a u := by
  rw [bind_apply, h]

theorem bind_of_error {x : ScriptM σ ι α} {f : α → ScriptM σ ι β} {w u : World σ ι} {fault : Fault}
    (h : x w = .error fault u) : (x >>= f) w = .error fault u := by
  rw [bind_apply, h]

theorem after_bind_of_ok {x : ScriptM σ ι α} {f : α → ScriptM σ ι β} {w u : World σ ι} {a : α}
    (h : x w = .ok a u) : (x >>= f).after w = (f a).after u :=
  after_congr (bind_of_ok h)

theorem after_bind_of_error {x : ScriptM σ ι α} {f : α → ScriptM σ ι β} {w u : World σ ι}
    {fault : Fault} (h : x w = .error fault u) : (x >>= f).after w = u :=
  after_of_error (bind_of_error h)

/-- What holds after the first operation and is kept by the second holds after a sequence. -/
theorem after_bind {P : World σ ι → Prop} {x : ScriptM σ ι α} {f : α → ScriptM σ ι β}
    {w : World σ ι} (hx : P (x.after w)) (hf : ∀ a u, P u → P ((f a).after u)) :
    P ((x >>= f).after w) := by
  cases h : x w with
  | ok a u =>
    rw [after_of_ok h] at hx
    rw [after_bind_of_ok h]
    exact hf a u hx
  | error fault u =>
    rw [after_of_error h] at hx
    rwa [after_bind_of_error h]

/-- An attempt goes well, whatever becomes of the operation. -/
theorem attempt_of_ok {x : ScriptM σ ι α} {w w' : World σ ι} {a : α} (h : x w = .ok a w') :
    attempt x w = .ok (.ok a) w' := by
  rw [attempt, h]

theorem attempt_of_error {x : ScriptM σ ι α} {w w' : World σ ι} {fault : Fault}
    (h : x w = .error fault w') : attempt x w = .ok (.error fault) w' := by
  rw [attempt, h]

/-- An attempt that found an answer is an operation that went well. -/
theorem attempt_ok {x : ScriptM σ ι α} {w w' : World σ ι} {a : α}
    (h : attempt x w = .ok (.ok a) w') : x w = .ok a w' := by
  unfold attempt at h
  cases hx : x w with
  | ok b u =>
    rw [hx] at h
    cases h
    rfl
  | error fault u =>
    rw [hx] at h
    cases h

/-- Attempts at operations that do the same. -/
theorem attempt_congr {x y : ScriptM σ ι α} {u w : World σ ι} (h : x u = y w) :
    attempt x u = attempt y w := by
  unfold attempt
  rw [h]

/-- The world after an attempt is the one after the operation. -/
theorem after_attempt (x : ScriptM σ ι α) (w : World σ ι) : (attempt x).after w = x.after w := by
  unfold ScriptM.after attempt
  cases x w with
  | ok a u => rfl
  | error fault u => rfl

/-- So is the one after an operation whose faults are told in another way. -/
theorem after_mapFault (f : Fault → Fault) (x : ScriptM σ ι α) (w : World σ ι) :
    (mapFault f x).after w = x.after w := by
  unfold ScriptM.after mapFault
  cases x w with
  | ok a u => rfl
  | error fault u => rfl

theorem reading_apply (f : World σ ι → Except Fault α) (w : World σ ι) :
    reading f w = match f w with
      | .ok a => .ok a w
      | .error fault => .error fault w := by
  show lift (f w) w = _
  cases f w with
  | ok a => rfl
  | error fault => rfl

/-- A reading changes nothing. -/
theorem after_reading (f : World σ ι → Except Fault α) (w : World σ ι) : (reading f).after w = w := by
  unfold ScriptM.after
  rw [reading_apply]
  cases f w with
  | ok a => rfl
  | error fault => rfl

/-- A sequence that went well is two operations that went well. -/
theorem bind_ok {x : ScriptM σ ι α} {f : α → ScriptM σ ι β} {w w' : World σ ι} {b : β}
    (h : (x >>= f) w = .ok b w') : ∃ a u, x w = .ok a u ∧ f a u = .ok b w' := by
  rw [bind_apply] at h
  cases hx : x w with
  | ok a u =>
    rw [hx] at h
    exact ⟨a, u, rfl, h⟩
  | error fault u =>
    rw [hx] at h
    exact absurd h (by simp)

/-- A sequence that begins with a look at the world. -/
theorem get_bind (f : World σ ι → ScriptM σ ι β) (w : World σ ι) :
    (MonadState.get >>= f) w = f w w := rfl

/-- A sequence that begins with a look at a script. -/
theorem script_bind (i : Nat) (f : Script ι → ScriptM σ ι β) (w : World σ ι) :
    (script i >>= f) w = f (w.script i) w := rfl

theorem after_script_bind (i : Nat) (f : Script ι → ScriptM σ ι β) (w : World σ ι) :
    (script i >>= f).after w = (f (w.script i)).after w := rfl

theorem after_modifyScript_bind (i : Nat) (g : Script ι → Script ι) (f : Unit → ScriptM σ ι β)
    (w : World σ ι) : (modifyScript i g >>= f).after w = (f ()).after (w.modifyScript i g) := rfl

/-- A jump to a line that is not there changes nothing. -/
theorem gotoScript_of_none {w : World σ ι} {i : Nat} {line : Int}
    (h : (w.script i).gotoLine? line = none) : gotoScript i line w = .ok false w := by
  unfold gotoScript
  rw [script_bind, h]
  rfl

theorem gotoScript_of_some {w : World σ ι} {i : Nat} {line : Int} {s : Script ι}
    (h : (w.script i).gotoLine? line = some s) :
    gotoScript i line w = .ok true (w.modifyScript i fun _ => s) := by
  unfold gotoScript
  rw [script_bind, h]
  rfl

/-- A jump without an active script changes nothing. -/
theorem gotoLine_of_none {w : World σ ι} (h : w.active = none) (line : Int) :
    gotoLine line w = .ok false w := by
  unfold gotoLine
  rw [get_bind, h]
  rfl

theorem gotoLine_of_some {w : World σ ι} {i : Nat} (h : w.active = some i) (line : Int) :
    gotoLine line w = gotoScript i line w := by
  unfold gotoLine
  rw [get_bind, h]

theorem requireActive_of_none {w : World σ ι} {action : String} (h : w.active = none) :
    requireActive action w = .error (.at none (.inactive action)) w := by
  unfold requireActive
  rw [get_bind, h]
  rfl

theorem requireActive_of_some {w : World σ ι} {action : String} {i : Nat}
    (h : w.active = some i) : requireActive action w = .ok i w := by
  unfold requireActive
  rw [get_bind, h]
  rfl

/-- Whoever asks for a deadline that is there gets it. -/
theorem deadlineOf_of_some {w : World σ ι} {i : Nat} {d : Float}
    (h : (w.script i).deadline = some d) : deadlineOf i w = .ok d w := by
  unfold deadlineOf
  rw [script_bind, h]
  rfl

/-- Asking for a deadline changes nothing. -/
theorem after_deadlineOf (i : Nat) (w : World σ ι) : (deadlineOf i).after w = w := by
  unfold deadlineOf
  rw [after_script_bind]
  split
  · rfl
  · rfl

/-- A wait begins, or it changes nothing. -/
theorem timeoutScript_cases (i : Nat) (d : Duration) (c : Option (Callback ι)) (w : World σ ι) :
    timeoutScript i d c w = .ok () w ∨ (∃ fault, timeoutScript i d c w = .error fault w) ∨
      ∃ x, (w.script i).activity = .running ∧
        timeoutScript i d c w = .ok () (w.modifyScript i (·.timeout (w.now + x) c)) := by
  have he : timeoutScript i d c w =
      (if (w.script i).activity = .running then do
        let s ← seconds d
        modify fun w => w.modifyScript i (·.timeout (w.now + s) c)
      else Pure.pure () : ScriptM σ ι Unit) w := by
    unfold timeoutScript
    rw [script_bind]
  rw [he]
  by_cases hr : (w.script i).activity = .running
  · rw [if_pos hr, bind_apply]
    unfold seconds
    cases d.seconds.mapError (fun f => Fault.trouble (.number f)) with
    | ok x => exact .inr (.inr ⟨x, hr, rfl⟩)
    | error fault => exact .inr (.inl ⟨fault, rfl⟩)
  · rw [if_neg hr]
    exact .inl rfl

end ScriptM

/-- A jump moves the cursor to a statement and remembers where it was. -/
theorem Script.gotoLine?_eq_some {s s' : Script ι} {line : Int} (h : s.gotoLine? line = some s') :
    ∃ t, s' = { s with cursor := some t, returns := s.cursor.toList ++ s.returns } := by
  unfold gotoLine? at h
  rw [Option.map_eq_some_iff] at h
  obtain ⟨t, _, ht⟩ := h
  exact ⟨t, ht.symm⟩

variable {R : World σ ι → World σ ι → Prop}

namespace Keeps

theorem ok {x : ScriptM σ ι α} {w w' : World σ ι} {a : α} (hx : Keeps R x)
    (h : x w = .ok a w') : R w w' := by
  have := hx w
  rwa [after_of_ok h] at this

theorem error {x : ScriptM σ ι α} {w w' : World σ ι} {fault : Fault} (hx : Keeps R x)
    (h : x w = .error fault w') : R w w' := by
  have := hx w
  rwa [after_of_error h] at this

theorem pure (hR : Tolerant R) (a : α) : Keeps R (Pure.pure a) := fun w => hR.refl w

theorem throw (hR : Tolerant R) (fault : Fault) :
    Keeps R (MonadExcept.throw fault : ScriptM σ ι α) := fun w => hR.refl w

theorem get (hR : Tolerant R) : Keeps R (MonadState.get : ScriptM σ ι (World σ ι)) :=
  fun w => hR.refl w

/-- A sequence leads to what its parts lead to, each with a relation of its own. -/
theorem after_seq {Q S T : World σ ι → World σ ι → Prop} {x : ScriptM σ ι α}
    {f : α → ScriptM σ ι β} {w : World σ ι} (hx : Q w (x.after w)) (hf : ∀ a, Keeps S (f a))
    (hstop : ∀ {u v}, Q u v → T u v) (hgo : ∀ {u v w}, Q u v → S v w → T u w) :
    T w ((x >>= f).after w) := by
  cases h : x w with
  | ok a u =>
    rw [after_of_ok h] at hx
    rw [after_bind_of_ok h]
    exact hgo hx (hf a u)
  | error fault u =>
    rw [after_of_error h] at hx
    rw [after_bind_of_error h]
    exact hstop hx

theorem seq {Q S T : World σ ι → World σ ι → Prop} {x : ScriptM σ ι α} {f : α → ScriptM σ ι β}
    (hx : Keeps Q x) (hf : ∀ a, Keeps S (f a)) (hstop : ∀ {u v}, Q u v → T u v)
    (hgo : ∀ {u v w}, Q u v → S v w → T u w) : Keeps T (x >>= f) :=
  fun w => after_seq (hx w) hf hstop hgo

theorem bind (hR : Tolerant R) {x : ScriptM σ ι α} {f : α → ScriptM σ ι β} (hx : Keeps R x)
    (hf : ∀ a, Keeps R (f a)) : Keeps R (x >>= f) :=
  hx.seq hf id hR.trans

theorem modify {f : World σ ι → World σ ι} (hf : ∀ w, R w (f w)) :
    Keeps R (modify f : ScriptM σ ι Unit) := hf

theorem modifyGet {f : World σ ι → α × World σ ι} (hf : ∀ w, R w (f w).2) :
    Keeps R (modifyGet f : ScriptM σ ι α) := hf

theorem modifyScript {i : Nat} {f : Script ι → Script ι} (hf : ∀ w, R w (w.modifyScript i f)) :
    Keeps R (modifyScript i f : ScriptM σ ι Unit) := hf

theorem mono {S : World σ ι → World σ ι → Prop} {x : ScriptM σ ι α} (hx : Keeps R x)
    (h : ∀ w w', R w w' → S w w') : Keeps S x :=
  fun w => h _ _ (hx w)

theorem attempt {x : ScriptM σ ι α} (hx : Keeps R x) : Keeps R (attempt x) := by
  intro w
  rw [after_attempt]
  exact hx w

theorem mapFault {x : ScriptM σ ι α} (f : Fault → Fault) (hx : Keeps R x) :
    Keeps R (mapFault f x) := by
  intro w
  rw [after_mapFault]
  exact hx w

theorem fail (hR : Tolerant R) (site : Option Site) (cause : Cause) :
    Keeps R (fail site cause : ScriptM σ ι α) := throw hR _

theorem lift (hR : Tolerant R) (r : Except Fault α) : Keeps R (lift r : ScriptM σ ι α) := by
  cases r with
  | ok a => exact pure hR a
  | error fault => exact throw hR fault

theorem reading (hR : Tolerant R) (f : World σ ι → Except Fault α) : Keeps R (reading f) :=
  bind hR (get hR) fun w => lift hR (f w)

theorem script (hR : Tolerant R) (i : Nat) : Keeps R (script i : ScriptM σ ι (Script ι)) :=
  bind hR (get hR) fun w => pure hR (w.script i)

/-- Setting what was read from the world changes the world as the reading says. -/
theorem reading_set {f : World σ ι → Except Fault (World σ ι)} (hR : Tolerant R)
    (hf : ∀ w w', f w = .ok w' → R w w') :
    Keeps R (ScriptM.reading f >>= fun w => (set w : ScriptM σ ι Unit)) := by
  intro w
  cases h : f w with
  | ok w' =>
    have he : (ScriptM.reading f >>= fun w => (set w : ScriptM σ ι Unit)).after w = w' := by
      rw [ScriptM.after, ScriptM.bind_apply, ScriptM.reading_apply, h]
      rfl
    rw [he]
    exact hf w w' h
  | error fault =>
    have he : (ScriptM.reading f >>= fun w => (set w : ScriptM σ ι Unit)).after w = w := by
      rw [ScriptM.after, ScriptM.bind_apply, ScriptM.reading_apply, h]
    rw [he]
    exact hR.refl w

theorem ite {c : Prop} [Decidable c] {x y : ScriptM σ ι α} (hx : Keeps R x) (hy : Keeps R y) :
    Keeps R (if c then x else y) := by
  split
  · exact hx
  · exact hy

end Keeps

end

end Cadence
