/-
  SUSPENSION — a deadline while a script is suspended, and a callback asked at most once.

  A script stands in one of three ways (`Script.Stands`): it runs and has neither deadline nor
  callback, it rests with a deadline and no callback, or it waits with a deadline, and with a
  callback that may already be used up.  Many operations write these three fields, and the callback
  runs in the middle of a tick and may itself use every one of them.

  1. **The invariant** — every script stands in one of the three ways, and for every callback the
     askings and the scripts that still hold it are together at most as many as the armings
     (`Sound`).

  2. **What keeps it** — each operation, so each composition of operations (`Acts.preserves`), and
     the moment in which a tick takes a callback out of a script and asks it (`Sound.asking`).
     Everything else that happens in a tick is kept by `keeps_tick`.

  3. **The result** — `suspension_of_reachable` reads the invariant off for every reachable world.
-/
import Cadence.Proofs.Running.Operations

namespace Cadence

open ScriptM

/-! ## How a script may stand -/

/-- A script stands in one of three ways. -/
def Script.Stands {ι : Type} (s : Script ι) : Activity → Prop
  | .running => s.activity = .running ∧ s.deadline = none ∧ s.callback = none
  | .paused => s.activity = .paused ∧ s.deadline.isSome ∧ s.callback = none
  | .timingOut => s.activity = .timingOut ∧ s.deadline.isSome

namespace Script

variable {ι : Type} {s s' : Script ι}

/-- A script stands in the way that its activity says. -/
def Settled (s : Script ι) : Prop := s.Stands s.activity

/-- The three ways exclude each other. -/
theorem Stands.activity {a : Activity} (h : s.Stands a) : a = s.activity := by
  cases a with
  | running => exact h.1.symm
  | paused => exact h.1.symm
  | timingOut => exact h.1.symm

theorem Stands.settled {a : Activity} (h : s.Stands a) : s.Settled := by
  unfold Settled
  rwa [← h.activity]

theorem Settled.stands {a : Activity} (h : s.Settled) (ha : s.activity = a) : s.Stands a := by
  unfold Settled at h
  rwa [← ha]

/-- A script that is suspended like another is settled with it. -/
theorem Settled.congr (h : s.Settled) (ha : s'.activity = s.activity)
    (hd : s'.deadline = s.deadline) (hc : s'.callback = s.callback) : s'.Settled := by
  unfold Settled at h ⊢
  rw [ha]
  cases hs : s.activity with
  | running =>
    rw [hs] at h
    exact ⟨ha.trans hs, hd.trans h.2.1, hc.trans h.2.2⟩
  | paused =>
    rw [hs] at h
    exact ⟨ha.trans hs, hd ▸ h.2.1, hc.trans h.2.2⟩
  | timingOut =>
    rw [hs] at h
    exact ⟨ha.trans hs, hd ▸ h.2⟩

theorem Settled.pause (h : s.Settled) (d : Float) : (s.pause d).Settled := by
  unfold Script.pause
  split
  · rename_i ha
    exact Stands.settled (a := .paused) ⟨rfl, rfl, (h.stands ha).2.2⟩
  · exact h

theorem Settled.unpause (h : s.Settled) : s.unpause.Settled := by
  unfold Script.unpause
  split
  · rename_i ha
    exact Stands.settled (a := .running) ⟨rfl, rfl, (h.stands ha).2.2⟩
  · exact h

theorem Settled.timeout (h : s.Settled) (d : Float) (c : Option (Callback ι)) :
    (s.timeout d c).Settled := by
  unfold Script.timeout
  split
  · exact Stands.settled (a := .timingOut) ⟨rfl, rfl⟩
  · exact h

theorem Settled.clearTimeout (h : s.Settled) : s.clearTimeout.Settled := by
  unfold Script.clearTimeout
  split
  · exact Stands.settled (a := .running) ⟨rfl, rfl, rfl⟩
  · exact h

/-- A callback may be used up wherever there is one. -/
theorem Settled.consume (h : s.Settled) : s.consume.Settled := by
  unfold Settled at h ⊢
  show s.consume.Stands s.activity
  cases hs : s.activity with
  | running =>
    rw [hs] at h
    exact ⟨hs, h.2.1, rfl⟩
  | paused =>
    rw [hs] at h
    exact ⟨hs, h.2.1, rfl⟩
  | timingOut =>
    rw [hs] at h
    exact ⟨hs, h.2⟩

theorem settled_of_free (ha : s.activity = .running) (hd : s.deadline = none)
    (hc : s.callback = none) : s.Settled :=
  Stands.settled (a := .running) ⟨ha, hd, hc⟩

theorem clearTimeout_callback (s : Script ι) :
    s.clearTimeout.callback = s.callback ∨ s.clearTimeout.callback = none := by
  unfold Script.clearTimeout
  split
  · exact .inr rfl
  · exact .inl rfl

theorem unpause_callback (s : Script ι) : s.unpause.callback = s.callback := by
  unfold Script.unpause
  split
  · rfl
  · rfl

theorem returnFromGoto_suspension (s : Script ι) :
    s.returnFromGoto.activity = s.activity ∧ s.returnFromGoto.deadline = s.deadline ∧
      s.returnFromGoto.callback = s.callback := by
  unfold Script.returnFromGoto
  split
  · exact ⟨rfl, rfl, rfl⟩
  · exact ⟨rfl, rfl, rfl⟩

end Script

section

variable {σ ι : Type}

/-! ## The invariant -/

/-- Does a script hold a callback? -/
def Script.awaits [DecidableEq ι] (s : Script ι) (t : ι) : Bool :=
  match s.callback with
  | some (.host u) => u = t
  | _ => false

/-- The number of scripts that hold a callback. -/
def World.pending [DecidableEq ι] (w : World σ ι) (t : ι) : Nat :=
  (List.range w.scripts.size).countP fun i => (w.script i).awaits t

/-- Every script stands in one of the three ways, and the books are right. -/
structure Sound [DecidableEq ι] (w : World (Ledger σ ι) ι) : Prop where
  /-- Every script is settled. -/
  settled : ∀ i, (w.script i).Settled
  /-- Askings and callbacks still held are at most as many as armings. -/
  books : ∀ t, w.host.asked.count t + w.pending t ≤ w.host.armed.count t

/-! ## Counting the callbacks that are held -/

/-- Two conditions that differ at one number at most are counted alike but for that number. -/
theorem countP_range_congr {p q : Nat → Bool} {i : Nat} (h : ∀ j, j ≠ i → q j = p j) :
    ∀ {n}, i < n →
      (List.range n).countP q + (p i).toNat = (List.range n).countP p + (q i).toNat := by
  have same : ∀ n, n ≤ i → (List.range n).countP q = (List.range n).countP p := by
    intro n hn
    apply List.countP_congr
    intro j hj
    have hlt : j < n := List.mem_range.mp hj
    rw [h j (by omega)]
  have one : ∀ r : Nat → Bool, ∀ n,
      (List.range (n + 1)).countP r = (List.range n).countP r + (r n).toNat := by
    intro r n
    rw [List.range_succ, List.countP_append]
    cases hr : r n with
    | true => simp [hr]
    | false => simp [hr]
  intro n hi
  induction n with
  | zero => omega
  | succ n ih =>
    rw [one q n, one p n]
    rcases Nat.lt_or_eq_of_le (Nat.lt_succ_iff.mp hi) with hlt | he
    · have hn := h n (by omega)
      have := ih hlt
      rw [hn]
      omega
    · subst he
      have := same i (Nat.le_refl i)
      omega

variable [DecidableEq ι]

theorem pending_modifyScript {w : World σ ι} {i : Nat} (f : Script ι → Script ι) (t : ι)
    (hi : i < w.scripts.size) :
    (w.modifyScript i f).pending t + ((w.script i).awaits t).toNat =
      w.pending t + ((f (w.script i)).awaits t).toNat := by
  unfold World.pending
  have h := countP_range_congr (p := fun j => (w.script j).awaits t)
    (q := fun j => ((w.modifyScript i f).script j).awaits t) (i := i)
    (fun j hj => by rw [World.script_modifyScript_of_ne f (Ne.symm hj)]) hi
  rw [World.script_modifyScript_self f hi] at h
  rw [World.size_modifyScript]
  exact h

theorem awaits_of_callback_eq_none {s : Script ι} (h : s.callback = none) (t : ι) :
    s.awaits t = false := by
  rw [Script.awaits, h]

theorem awaits_congr {s s' : Script ι} (h : s'.callback = s.callback) (t : ι) :
    s'.awaits t = s.awaits t := by
  rw [Script.awaits, Script.awaits, h]

/-! ## What keeps the invariant -/

namespace Sound

variable {w w' : World (Ledger σ ι) ι}

/-- What writes no suspension keeps the invariant. -/
theorem aside (hw : Sound w) (h : Aside w w') : Sound w' := by
  refine ⟨fun i => (hw.settled i).congr (h.activity i) (h.deadline i) (h.callback i), fun t => ?_⟩
  have hp : w'.pending t = w.pending t := by
    unfold World.pending
    rw [h.size]
    apply List.countP_congr
    intro i _
    rw [awaits_congr (h.callback i)]
  rw [hp, h.asked, h.armed]
  exact hw.books t

/-- A change of one script that arms nothing keeps the invariant. -/
theorem modifyScript (hw : Sound w) {i : Nat} {f : Script ι → Script ι}
    (hs : (w.script i).Settled → (f (w.script i)).Settled)
    (hc : ∀ t, (f (w.script i)).awaits t = true → (w.script i).awaits t = true) :
    Sound (w.modifyScript i f) := by
  rcases Nat.lt_or_ge i w.scripts.size with hi | hi
  · refine ⟨fun j => ?_, fun t => ?_⟩
    · rw [World.script_modifyScript]
      by_cases hj : i = j ∧ i < w.scripts.size
      · rw [if_pos hj, ← hj.1]
        exact hs (hw.settled i)
      · rw [if_neg hj]
        exact hw.settled j
    · have hp := pending_modifyScript f t hi
      have hle : ((f (w.script i)).awaits t).toNat ≤ ((w.script i).awaits t).toNat := by
        cases h : (f (w.script i)).awaits t with
        | false => exact Nat.zero_le _
        | true => exact Nat.le_of_eq (congrArg Bool.toNat (hc t h).symm)
      have := hw.books t
      show w.host.asked.count t + _ ≤ w.host.armed.count t
      omega
  · rw [World.modifyScript_of_size_le f hi]
    exact hw

/-- A change of one script that keeps its callback or drops it keeps the invariant. -/
theorem modifyScript_drop (hw : Sound w) {i : Nat} {f : Script ι → Script ι}
    (hs : ∀ s : Script ι, s.Settled → (f s).Settled)
    (hc : ∀ s : Script ι, (f s).callback = s.callback ∨ (f s).callback = none) :
    Sound (w.modifyScript i f) := by
  refine hw.modifyScript (hs _) fun t h => ?_
  rcases hc (w.script i) with he | hn
  · rwa [awaits_congr he] at h
  · rw [awaits_of_callback_eq_none hn] at h
    exact absurd h (by simp)

theorem modifyActive_drop (hw : Sound w) {f : Script ι → Script ι}
    (hs : ∀ s : Script ι, s.Settled → (f s).Settled)
    (hc : ∀ s : Script ι, (f s).callback = s.callback ∨ (f s).callback = none) :
    Sound (w.modifyActive f) := by
  unfold World.modifyActive
  cases w.active with
  | none => exact hw
  | some i => exact hw.modifyScript_drop hs hc

/-- A callback that is taken out of its script and asked was armed once more than it was asked. -/
theorem asking (hw : Sound w) {i : Nat} {t : ι} (h : (w.script i).callback = some (.host t)) :
    Sound ((w.modifyScript i Script.consume).noteAsked t) := by
  have hs : Sound (w.modifyScript i Script.consume) :=
    hw.modifyScript_drop (fun s h => h.consume) fun s => .inr rfl
  have hi : i < w.scripts.size := by
    rcases Nat.lt_or_ge i w.scripts.size with hi | hi
    · exact hi
    · rw [World.script_of_size_le hi] at h
      exact absurd h (by simp [show (default : Script ι).callback = none from rfl])
  refine ⟨hs.settled, fun u => ?_⟩
  show (t :: w.host.asked).count u + (w.modifyScript i Script.consume).pending u ≤
    w.host.armed.count u
  have hp := pending_modifyScript Script.consume u hi
  have hn : (w.script i).consume.awaits u = false := awaits_of_callback_eq_none rfl u
  rw [hn] at hp
  have hb := hw.books u
  have ha : (w.script i).awaits u = decide (t = u) := by rw [Script.awaits, h]
  rw [ha] at hp
  rw [List.count_cons]
  by_cases htu : t = u
  · subst htu
    simp only [decide_true, Bool.toNat_true, Bool.toNat_false, beq_self_eq_true, if_true] at hp ⊢
    omega
  · simp only [htu, decide_false, Bool.toNat_false, beq_iff_eq, if_false] at hp ⊢
    omega

/-- A callback that is armed on a running script takes the place of none. -/
theorem noteArmed (hw : Sound w) {i : Nat} {d : Float} {t : ι} (hi : i < w.scripts.size)
    (hr : (w.script i).activity = .running) :
    Sound ((w.modifyScript i (·.timeout d (some (.host t)))).noteArmed t) := by
  refine ⟨fun j => ?_, fun u => ?_⟩
  · show ((w.modifyScript i (·.timeout d (some (.host t)))).script j).Settled
    rw [World.script_modifyScript]
    split
    · exact (hw.settled j).timeout d _
    · exact hw.settled j
  · show w.host.asked.count u + (w.modifyScript i (·.timeout d (some (.host t)))).pending u ≤
      (t :: w.host.armed).count u
    have hp := pending_modifyScript (·.timeout d (some (.host t))) u hi
    have hn : (w.script i).awaits u = false :=
      awaits_of_callback_eq_none ((hw.settled i).stands hr).2.2 u
    have ha : ((w.script i).timeout d (some (.host t))).awaits u = decide (t = u) := by
      rw [Script.timeout, if_pos hr]
      rfl
    have hb := hw.books u
    rw [hn, ha] at hp
    rw [List.count_cons]
    by_cases htu : t = u
    · subst htu
      simp only [decide_true, Bool.toNat_true, Bool.toNat_false, beq_self_eq_true, if_true] at hp ⊢
      omega
    · simp only [htu, decide_false, Bool.toNat_false, beq_iff_eq, if_false] at hp ⊢
      omega

/-- A new script that runs keeps the invariant. -/
theorem push (hw : Sound w) (s : Script ι) (ha : s.activity = .running) (hd : s.deadline = none)
    (hc : s.callback = none) : Sound { w with scripts := w.scripts.push s } := by
  refine ⟨fun j => ?_, fun t => ?_⟩
  · rw [World.script_push]
    split
    · exact Script.settled_of_free ha hd hc
    · exact hw.settled j
  · have hp : World.pending { w with scripts := w.scripts.push s } t = w.pending t := by
      unfold World.pending
      show (List.range (w.scripts.push s).size).countP _ = _
      rw [Array.size_push, List.range_succ, List.countP_append]
      have hlast : ([w.scripts.size].countP fun i =>
          (World.script { w with scripts := w.scripts.push s } i).awaits t) = 0 := by
        rw [List.countP_singleton, World.script_push, if_pos rfl, awaits_of_callback_eq_none hc]
        rfl
      rw [hlast, Nat.add_zero]
      apply List.countP_congr
      intro j hj
      have hlt : j < w.scripts.size := List.mem_range.mp hj
      rw [World.script_push, if_neg (by omega)]
    rw [hp]
    exact hw.books t

end Sound

/-! ## Operations keep the invariant -/

/-- The invariant holds after if it held before. -/
def Preserves (w w' : World (Ledger σ ι) ι) : Prop := Sound w → Sound w'

theorem preserves_lenient : Lenient (Preserves (σ := σ) (ι := ι)) where
  trans huv hvw := fun hu => hvw (huv hu)
  idle h := fun hw => hw.aside h.aside

/-- A change of one script that keeps its callback or drops it. -/
theorem preserves_drop (i : Nat) {f : Script ι → Script ι}
    (hs : ∀ s : Script ι, s.Settled → (f s).Settled)
    (hc : ∀ s : Script ι, (f s).callback = s.callback ∨ (f s).callback = none)
    (w : World (Ledger σ ι) ι) : Preserves w (w.modifyScript i f) :=
  fun hw => hw.modifyScript_drop hs hc

/-- A change of one script that writes no suspension. -/
theorem preserves_same (i : Nat) {f : Script ι → Script ι}
    (hf : ∀ s : Script ι, (f s).activity = s.activity ∧ (f s).deadline = s.deadline ∧
      (f s).callback = s.callback) (w : World (Ledger σ ι) ι) : Preserves w (w.modifyScript i f) :=
  preserves_drop i (fun s h => h.congr (hf s).1 (hf s).2.1 (hf s).2.2) (fun s => .inl (hf s).2.2) w

/-- The statements of a script may move it. -/
theorem preserves_drives (i : Nat) : Drives (Preserves (σ := σ) (ι := ι)) i where
  toLenient := preserves_lenient
  place w cursor frames :=
    preserves_same (f := fun s => { s with cursor := cursor s, frames := frames s }) i
      (fun _ => ⟨rfl, rfl, rfl⟩) w
  settle w := preserves_drop i (fun _ h => h.clearTimeout) Script.clearTimeout_callback w

/-- A rest that begins keeps the invariant. -/
theorem preserves_pause (i : Nat) (d : Float) (w : World (Ledger σ ι) ι) :
    Preserves w (w.modifyScript i (·.pause d)) := by
  refine preserves_drop i (fun s h => h.pause d) (fun s => ?_) w
  unfold Script.pause
  split
  · exact .inl rfl
  · exact .inl rfl

/-- A jump keeps the invariant. -/
theorem preserves_goto {i : Nat} {line : Int} (w : World (Ledger σ ι) ι) (s : Script ι)
    (h : (w.script i).gotoLine? line = some s) : Preserves w (w.modifyScript i fun _ => s) := by
  intro hw
  obtain ⟨t, rfl⟩ := Script.gotoLine?_eq_some h
  exact hw.modifyScript (fun hs => hs.congr rfl rfl rfl) fun t ht => ht

/-- The bundled commands that move or suspend keep the invariant. -/
theorem preserves_bundled : Bundled.Keeps (Preserves (σ := σ) (ι := ι)) where
  pause := keeps_pause preserves_lenient.toTolerant preserves_pause
  wait := by
    refine keeps_timeout preserves_lenient.toTolerant fun i d w hw => ?_
    refine hw.modifyScript (fun hs => hs.timeout _ _) fun t ht => ?_
    unfold Script.timeout at ht
    split at ht
    · exact absurd ht (by simp [Script.awaits])
    · exact ht
  goto line := keeps_gotoLine preserves_lenient.toTolerant fun i => preserves_goto
  return_ w hw := hw.modifyActive_drop
    (fun s h => h.congr s.returnFromGoto_suspension.1 s.returnFromGoto_suspension.2.1
      s.returnFromGoto_suspension.2.2)
    fun s => .inl s.returnFromGoto_suspension.2.2

omit [DecidableEq ι] in
/-- A script that did not change did not begin to wait. -/
theorem World.noteArming_self (w : World (Ledger σ ι) ι) (s : Script ι)
    (c : Option (Callback ι)) : w.noteArming s s c = w := by
  unfold noteArming
  split
  · rw [if_neg (by rintro ⟨h₁, h₂⟩; exact absurd (h₁.symm.trans h₂) (by simp))]
  · rfl

/-- An arming is noted exactly when a script begins to wait. -/
theorem arming_sound {w : World (Ledger σ ι) ι} (hw : Sound w) {i : Nat}
    {c : Option (Callback ι)} {x : ScriptM (Ledger σ ι) ι Unit} {d : Duration}
    (hx : x w = timeoutScript i d c w) : Sound ((arming i c x).after w) := by
  have ran : ∀ w', x w = .ok () w' →
      (arming i c x).after w = w'.noteArming (w.script i) (w'.script i) c := by
    intro w' h
    have he : arming i c x w = (x >>= fun _ =>
        modify fun w' => w'.noteArming (w.script i) (w'.script i) c) w := by
      unfold arming
      rw [script_bind]
    rw [ScriptM.after, he, bind_apply, h]
    rfl
  rcases timeoutScript_cases i d c w with h | ⟨fault, h⟩ | ⟨y, hr, h⟩
  · -- nothing has changed, so the script did not begin to wait
    rw [ran w (hx.trans h), World.noteArming_self]
    exact hw
  · have he : arming i c x w = .error fault w := by
      unfold arming
      rw [script_bind, bind_apply, hx, h]
    rw [after_of_error he]
    exact hw
  · rw [ran _ (hx.trans h)]
    rcases Nat.lt_or_ge i w.scripts.size with hi | hi
    · have ht : ((w.modifyScript i (·.timeout (w.now + y) c)).script i).activity = .timingOut := by
        rw [World.script_modifyScript_self _ hi, Script.timeout, if_pos hr]
      unfold World.noteArming
      split
      · rw [if_pos ⟨hr, ht⟩]
        exact hw.noteArmed hi hr
      · -- it waits without a callback of the host
        rename_i hc
        refine hw.modifyScript (fun hs => hs.timeout _ _) fun t hta => ?_
        rw [Script.timeout, if_pos hr] at hta
        unfold Script.awaits at hta
        split at hta
        · rename_i u hu
          exact absurd hu (hc u)
        · exact absurd hta (by simp)
    · -- there is no such script
      rw [World.modifyScript_of_size_le _ hi, World.noteArming_self]
      exact hw

/-- **Every operation keeps the invariant.** -/
theorem Operation.preserves (o : Operation ι) :
    Keeps Preserves (o.perform : ScriptM (Ledger σ ι) ι Unit) := by
  have hL := preserves_lenient (σ := σ) (ι := ι)
  have hb := preserves_bundled (σ := σ) (ι := ι)
  cases o with
  | pause i d => exact keeps_pauseScript hL (preserves_pause i) d
  | unpause i =>
    exact .modifyScript (preserves_drop i (fun s h => h.unpause) fun s => .inl s.unpause_callback)
  | timeout i d c => exact fun w hw => arming_sound hw rfl
  | clearTimeout i => exact (preserves_drives i).walks.clearTimeout
  | advance i => exact (preserves_drives i).walks.advance
  | goto i line => exact .bind hL (keeps_gotoScript hL preserves_goto) fun _ => .pure hL _
  | comeBack i => exact .modifyScript (preserves_same i fun s => s.returnFromGoto_suspension)
  | reset i =>
    refine .modifyScript (preserves_drop i (fun s _ => ?_) fun s => .inr rfl)
    exact Script.settled_of_free rfl rfl rfl
  | replace i root => exact .modifyScript (preserves_same i fun s => ⟨rfl, rfl, rfl⟩)
  | pauseActive d => exact hb.pause d
  | unpauseActive =>
    refine .bind hL (keeps_requireActive hL _) fun i => ?_
    exact .modifyScript (preserves_drop i (fun s h => h.unpause) fun s => .inl s.unpause_callback)
  | timeoutActive d c =>
    intro w hw
    cases ha : w.active with
    | none =>
      have he : (Operation.timeoutActive d c).perform w =
          .error (.at none (.inactive "timeout")) w := by
        show (requireActive "timeout" >>= _) w = _
        rw [bind_apply, requireActive_of_none ha]
      rw [after_of_error he]
      exact hw
    | some i =>
      have he : (Operation.timeoutActive d c).perform w =
          arming i c (ScriptM.timeout d c) w := by
        show (requireActive "timeout" >>= _) w = _
        rw [bind_apply, requireActive_of_some ha]
      have hx : ScriptM.timeout d c w = timeoutScript i d c w := by
        show (requireActive "timeout" >>= _) w = _
        rw [bind_apply, requireActive_of_some ha]
      rw [after_congr he]
      exact arming_sound hw hx
  | clearTimeoutActive =>
    exact .bind hL (keeps_requireActive hL _) fun i => (preserves_drives i).walks.clearTimeout
  | gotoActive line => exact .bind hL (hb.goto line) fun _ => .pure hL _
  | comeBackActive => exact .modify hb.return_
  | resetActive =>
    refine .modify fun w hw => ?_
    have h := hw.modifyActive_drop (f := Script.clearTimeout) (fun s h => h.clearTimeout)
      Script.clearTimeout_callback
    exact h.aside ⟨rfl, rfl, rfl, fun _ => rfl, fun _ => rfl, fun _ => rfl⟩
  | stopActive =>
    refine .modify fun w hw => ?_
    have h := hw.modifyActive_drop (f := Script.release)
      (fun s _ => Script.settled_of_free rfl rfl rfl) fun s => .inr rfl
    exact h.aside ⟨rfl, rfl, rfl, fun _ => rfl, fun _ => rfl, fun _ => rfl⟩
  | create name root => exact .modify fun w hw => hw.push (.start name root) rfl rfl rfl

/-- So does every composition of operations. -/
theorem Acts.preserves {u w : World (Ledger σ ι) ι} (h : Acts u w) : Preserves u w := by
  induction h with
  | refl => exact fun hu => hu
  | operation o _ ih => exact fun hu => o.preserves _ (ih hu)
  | aside _ ha ih => exact fun hu => (ih hu).aside ha

/-! ## Ticks keep the invariant -/

section

variable {host : Host (Ledger σ ι) ι} (hh : Bookkeeping host)
include hh

theorem Bookkeeping.preserves : host.Keeps Preserves := hh.around.mono fun _ _ h => h.preserves

theorem Bookkeeping.preserves_step (i : Nat) : Keeps Preserves (step host i) :=
  keeps_step (preserves_drives i).conducts hh.preserves preserves_bundled fun t word args quiet force =>
    (hh.command t word args quiet force).mono fun _ _ h => h.preserves

/-- **The moment of the callback.**  It is taken out of its script before it is asked, and from then
on it may do whatever operations do, with the script that waits as with any other. -/
theorem Bookkeeping.preserves_expire (i : Nat) : Keeps Preserves (expire host i) := by
  have hL := preserves_lenient (σ := σ) (ι := ι)
  have rest : Keeps Preserves (do
      if (← script i).activity = .running then step host i
      else
        finish host i
        return false) := by
    refine .bind hL (.script hL i) fun s => .ite (hh.preserves_step i) ?_
    exact .bind hL (keeps_finish hL (hL.activated none) hh.preserves i) fun _ => .pure hL _
  intro w hw
  unfold expire
  rw [after_script_bind, after_modifyScript_bind]
  cases hc : (w.script i).callback with
  | none => exact rest _ (hw.modifyScript_drop (fun s h => h.consume) fun s => .inr rfl)
  | some c =>
    have answered : ∀ b : Bool, Keeps Preserves (do
        if b then advance i
        if (← script i).activity = .running then step host i
        else
          finish host i
          return false) := by
      intro b
      refine .ite (.bind hL (preserves_drives i).walks.advance fun _ => rest) rest
    cases c with
    | giveUp =>
      exact answered true _ (hw.modifyScript_drop (fun s h => h.consume) fun s => .inr rfl)
    | host t =>
      have asked : Sound ((host.callback t).after (w.modifyScript i Script.consume)) :=
        (hh.callback t _).preserves (hw.asking hc)
      exact after_bind (after_bind asked fun v u hu => hu) fun b => answered b

theorem Bookkeeping.preserves_tick (i : Nat) : Keeps Preserves (tick host i) :=
  keeps_tick (preserves_drives i).conducts hh.preserves preserves_bundled
    (fun t word args quiet force =>
      (hh.command t word args quiet force).mono fun _ _ h => h.preserves)
    (preserves_drop i (fun _ h => h.unpause) fun s => .inl s.unpause_callback)
    (hh.preserves_expire i)

/-- **The invariant holds in every reachable world.** -/
theorem Reachable.sound {w : World (Ledger σ ι) ι} (hw : Reachable host w) : Sound w := by
  induction hw with
  | fresh w hs ha hk =>
    have start : ∀ i, (w.script i).Settled ∧ (w.script i).callback = none := by
      intro i
      rcases Nat.lt_or_ge i w.scripts.size with hi | hi
      · -- a script that is there was just started
        have hm : w.script i ∈ w.scripts := by
          rw [World.script, Array.getD_eq_getD_getElem?, Array.getElem?_eq_getElem hi]
          exact Array.getElem_mem hi
        obtain ⟨name, root, he⟩ := hs _ hm
        rw [he]
        exact ⟨Script.settled_of_free rfl rfl rfl, rfl⟩
      · rw [World.script_of_size_le hi]
        exact ⟨Script.settled_of_free rfl rfl rfl, rfl⟩
    refine ⟨fun i => (start i).1, fun t => ?_⟩
    have hp : w.pending t = 0 := by
      unfold World.pending
      rw [List.countP_eq_zero]
      intro i _
      rw [awaits_of_callback_eq_none (start i).2]
      simp
    rw [hp, ha, hk]
    exact Nat.le_refl 0
  | tick i _ ih => exact hh.preserves_tick i _ ih
  | acts _ h ih => exact h.preserves ih
  | @asking w i t d _ _ _ _ hc ih =>
    have active : Sound { w with active := some i } :=
      ih.aside ⟨rfl, rfl, rfl, fun _ => rfl, fun _ => rfl, fun _ => rfl⟩
    exact active.asking hc

/-- **Suspensions are never torn.**  In every reachable world every script stands in exactly one of
the three ways; a tick of a script that is suspended finds a deadline to compare the clock with; and
no callback is asked more often than it was armed, even with the askings that are still to come. -/
theorem suspension_of_reachable {w : World (Ledger σ ι) ι} (hw : Reachable host w) :
    (∀ i, ∃ a, (w.script i).Stands a ∧ ∀ b, (w.script i).Stands b → b = a) ∧
    (∀ i, (w.script i).activity ≠ .running →
      ∃ d, deadlineOf i { w with active := some i } = .ok d { w with active := some i }) ∧
    ∀ t, w.host.asked.count t + w.pending t ≤ w.host.armed.count t := by
  have hs := hw.sound hh
  refine ⟨fun i => ⟨_, hs.settled i, fun b hb => hb.activity⟩, fun i hi => ?_, hs.books⟩
  have some_ : ∃ d, (w.script i).deadline = some d := by
    have h := hs.settled i
    unfold Script.Settled at h
    rw [← Option.isSome_iff_exists]
    cases ha : (w.script i).activity with
    | running => exact absurd ha hi
    | paused =>
      rw [ha] at h
      exact h.2.1
    | timingOut =>
      -- the callback may be consumed, the deadline is there all the same
      rw [ha] at h
      exact h.2
  obtain ⟨d, hd⟩ := some_
  exact ⟨d, deadlineOf_of_some hd⟩

end

/-- A host whose command lets the active script wait, and whose callback starts the script anew. -/
def waiting : Host (Ledger Unit Unit) Unit where
  command _ _ _ _ _ := do
    (Operation.timeoutActive (.whole 0) (some (.host ()))).perform
    return .bool false
  expression _ _ _ _ := return .null
  computedAlias _ _ := return .null
  listener _ _ := return
  rule _ _ := return
  callback t := do
    modify (World.noteAsked t)
    (Operation.reset 0).perform
    return .bool true
  write _ := return

theorem waiting_bookkeeping : Bookkeeping waiting where
  around := ⟨fun _ _ _ _ _ => .refl, fun _ _ _ => .refl, fun _ _ _ => .refl, fun _ _ _ => .refl,
    fun _ _ => .refl⟩
  command _ _ _ _ _ w := after_bind (P := Acts w) (.operation _ .refl) fun _ _ h => h
  callback _ _ := .operation (.reset 0) .refl

/-- A script of one statement, a command of the host. -/
def waitingWorld : World (Ledger Unit Unit) Unit where
  host := { own := () }
  registry := { commands := .insert .empty "wait" (.host ()) }
  scripts := #[.start "script"
    { kind := .script
      children := [{ kind := .statement, children := [{ kind := .command, lexeme := some "wait" }] }] }]

theorem waitingWorld_fresh : ∀ s ∈ waitingWorld.scripts, ∃ name root, s = .start name root := by
  intro s hs
  have he : s = _ := Array.mem_singleton.mp hs
  exact ⟨_, _, he⟩

theorem suspension_of_reachable_waiting :
    let w := (tick waiting 0).after ((tick waiting 0).after waitingWorld)
    (∀ i, ∃ a, (w.script i).Stands a ∧ ∀ b, (w.script i).Stands b → b = a) ∧
    (∀ i, (w.script i).activity ≠ .running →
      ∃ d, deadlineOf i { w with active := some i } = .ok d { w with active := some i }) ∧
    ∀ t, w.host.asked.count t + w.pending t ≤ w.host.armed.count t :=
  suspension_of_reachable waiting_bookkeeping
    (.tick 0 (.tick 0 (.fresh waitingWorld waitingWorld_fresh rfl rfl)))

end

end Cadence
