/-
  BELONGING — the statement that a pending wait belongs to.

  A wait is begun for the statement under the cursor, and when its deadline comes its callback lets
  the script go on behind the statement that is under the cursor then.  So these are the same only if
  a wait ends whenever the cursor moves.

  1. **Calm** — what neither moves a script nor lets it wait (`Calm`): everything that stands around a
     statement, and most of what a statement does before it goes on.

  2. **Staying** — an operation after which the script waits only where it stood before (`Stays`).
     This does not go from step to step: an operation may move the script and the next one let it
     wait.  But something calm may stand before and after, and what ends a wait stays.

  3. **Displacing** — the statements and operations that move the cursor and leave a wait as it is.
     All others stay.

  4. **The result** — a run that keeps the statement for which the last wait was begun beside the
     world (`Watched`); as long as nothing displaces a waiting script, it is the one under the cursor,
     and the one that is left behind when the deadline comes.
-/
import Cadence.Proofs.Running.Replacing
import Cadence.Proofs.Running.Failing

namespace Cadence

open ScriptM

section

variable {σ ι α β : Type}

/-! ## Calm -/

/-- A script waits. -/
def Waiting (i : Nat) (w : World σ ι) : Prop := (w.script i).activity = .timingOut

/-- A script waits only if it has waited before. -/
def Unbegun (i : Nat) (w w' : World σ ι) : Prop := Waiting i w' → Waiting i w

/-- A script has its cursor where it was. -/
def SameCursor (i : Nat) (w w' : World σ ι) : Prop :=
  (w'.script i).cursor = (w.script i).cursor

/-- A script has not moved and has not begun to wait. -/
structure Calm (i : Nat) (w w' : World σ ι) : Prop where
  /-- The cursor is where it was. -/
  cursor : SameCursor i w w'
  /-- No wait has begun. -/
  unbegun : Unbegun i w w'

theorem sameCursor_lenient (i : Nat) : Lenient (SameCursor (σ := σ) (ι := ι) i) :=
  same_lenient Script.cursor (fun _ => rfl) i

/-- A change of some script after which this one waits only if it did. -/
theorem unbegun_modifyScript (i j : Nat) {f : Script ι → Script ι} (w : World σ ι)
    (hf : ∀ s, (f s).activity = .timingOut → s.activity = .timingOut) :
    Unbegun i w (w.modifyScript j f) := by
  unfold Unbegun Waiting
  rw [World.script_modifyScript]
  split
  · exact hf _
  · exact id

theorem Script.activity_clearTimeout (s : Script ι) : s.clearTimeout.activity ≠ .timingOut := by
  unfold clearTimeout
  split
  · exact nofun
  · assumption

theorem unbegun_drives (i : Nat) : Drives (Unbegun (σ := σ) (ι := ι) i) i where
  trans h h' := fun hw => h (h' hw)
  idle h := fun hw => (Script.alike_of_course (h.course i)).activity.symm.trans hw
  place w _ _ := unbegun_modifyScript i i w fun _ => id
  settle w := unbegun_modifyScript i i w fun s hs => absurd hs s.activity_clearTimeout

theorem calm_lenient (i : Nat) : Lenient (Calm (σ := σ) (ι := ι) i) where
  trans h h' := ⟨(sameCursor_lenient i).trans h.cursor h'.cursor,
    (unbegun_drives i).trans h.unbegun h'.unbegun⟩
  idle h := ⟨(sameCursor_lenient i).idle h, (unbegun_drives i).idle h⟩

theorem calm_tolerant (i : Nat) : Tolerant (Calm (σ := σ) (ι := ι) i) := (calm_lenient i).toTolerant

/-- A change of some script that leaves its cursor. -/
theorem sameCursor_modifyScript (i j : Nat) {f : Script ι → Script ι} (w : World σ ι)
    (hf : ∀ s, (f s).cursor = s.cursor) : SameCursor i w (w.modifyScript j f) :=
  same_modifyScript i j w hf

/-- A change of some script that leaves its cursor and its suspension is calm. -/
theorem calm_modifyScript (i j : Nat) {f : Script ι → Script ι} (w : World σ ι)
    (hf : ∀ s, (f s).cursor = s.cursor ∧ (f s).activity = s.activity) :
    Calm i w (w.modifyScript j f) :=
  ⟨sameCursor_modifyScript i j w fun s => (hf s).1,
    unbegun_modifyScript i j w fun s hs => (hf s).2.symm.trans hs⟩

/-! ## Staying -/

/-- If a script waits, its cursor is where it was. -/
def Stays (i : Nat) (w w' : World σ ι) : Prop := Waiting i w' → SameCursor i w w'

theorem SameCursor.stays {i : Nat} {w w' : World σ ι} (h : SameCursor i w w') : Stays i w w' :=
  fun _ => h

theorem stays_of_not_waiting {i : Nat} {w w' : World σ ι} (h : ¬ Waiting i w') : Stays i w w' :=
  fun hw => absurd hw h

/-- Something calm may come before. -/
theorem Calm.trans_stays {i : Nat} {u v w : World σ ι} (h : Calm i u v) (h' : Stays i v w) :
    Stays i u w :=
  fun hw => (sameCursor_lenient i).trans h.cursor (h' hw)

/-- After the operation the script does not wait. -/
def Frees (i : Nat) (x : ScriptM σ ι α) : Prop := ∀ w, ¬ Waiting i (x.after w)

section

variable {i : Nat}

theorem Frees.stays {x : ScriptM σ ι α} (h : Frees i x) : Keeps (Stays i) x :=
  fun w => stays_of_not_waiting (h w)

/-- It does not matter what is changed before. -/
theorem Frees.after_modifyScript {f : Script ι → Script ι} {x : ScriptM σ ι α} (h : Frees i x) :
    Frees i (do
      modifyScript i f
      x) :=
  fun w => h (w.modifyScript i f)

theorem not_waiting_modifyScript {w : World σ ι} {f : Script ι → Script ι}
    (hf : ∀ s, (f s).activity ≠ .timingOut) : ¬ Waiting i (w.modifyScript i f) := by
  intro hw
  have hi : i < w.scripts.size := by
    have := World.lt_size_of_suspended (w := w.modifyScript i f) (i := i) (by
      rw [show ((w.modifyScript i f).script i).activity = .timingOut from hw]
      exact nofun)
    simpa using this
  rw [Waiting, World.script_modifyScript_self f hi] at hw
  exact hf _ hw

theorem frees_advance : Frees i (advance i : ScriptM σ ι Unit) :=
  fun _ => not_waiting_modifyScript fun s => s.activity_clearTimeout

/-- Where a wait has been ended, it is enough that none begins. -/
theorem frees_clearTimeout {x : ScriptM σ ι α} (hx : Keeps (Unbegun i) x) :
    Frees i (do
      modifyScript i Script.clearTimeout
      x) :=
  fun w hw => not_waiting_modifyScript (fun s => s.activity_clearTimeout)
    (hx (w.modifyScript i Script.clearTimeout) hw)

/-- A script that waits has waited before, at the same place. -/
def Holds (i : Nat) (w w' : World σ ι) : Prop := Waiting i w' → Waiting i w ∧ SameCursor i w w'

theorem Calm.holds {w w' : World σ ι} (h : Calm i w w') : Holds i w w' :=
  fun hw => ⟨h.unbegun hw, h.cursor⟩

theorem Holds.trans {u v w : World σ ι} (h : Holds i u v) (h' : Holds i v w) : Holds i u w := by
  intro hw
  obtain ⟨hv, hvw⟩ := h' hw
  obtain ⟨hu, huv⟩ := h hv
  exact ⟨hu, (sameCursor_lenient i).trans huv hvw⟩

/-- A wait that was there already may come after. -/
theorem Stays.trans_holds {u v w : World σ ι} (h : Stays i u v) (h' : Holds i v w) :
    Stays i u w := by
  intro hw
  obtain ⟨hv, hvw⟩ := h' hw
  exact (sameCursor_lenient i).trans (h hv) hvw

namespace Keeps

theorem stays {x : ScriptM σ ι α} (hx : Keeps (Calm i) x) : Keeps (Stays i) x :=
  hx.mono fun _ _ h => h.cursor.stays

theorem holds {x : ScriptM σ ι α} (hx : Keeps (Calm i) x) : Keeps (Holds i) x :=
  hx.mono fun _ _ h => h.holds

/-- Something calm may come before. -/
theorem before_stays {x : ScriptM σ ι α} {f : α → ScriptM σ ι β} (hx : Keeps (Calm i) x)
    (hf : ∀ a, Keeps (Stays i) (f a)) : Keeps (Stays i) (x >>= f) :=
  hx.seq hf (fun h => h.cursor.stays) Calm.trans_stays

/-- What begins no wait may come after. -/
theorem stays_before {x : ScriptM σ ι α} {f : α → ScriptM σ ι β} (hx : Keeps (Stays i) x)
    (hf : ∀ a, Keeps (Holds i) (f a)) : Keeps (Stays i) (x >>= f) :=
  hx.seq hf id Stays.trans_holds

end Keeps

/-! ## Displacing -/

/-- Statements of this kind move the cursor and leave a wait as it is. -/
def Kind.displaces : Kind → Bool
  | .whileEnd | .forEnd | .continueLoop | .stop | .replay => true
  | _ => false

/-- A statement moves the cursor and leaves a wait as it is: by its kind, or because it is a command
that jumps. -/
inductive Statement.Displaces (i : Nat) (v : World σ ι) (t : Statement) : Prop
  /-- Its kind does. -/
  | moves {k : Kind} : t.headKind? = some k → k.displaces = true → Displaces i v t
  /-- It jumps. -/
  | jumps {args : List Argument} : t.Asks i .goto args v → Displaces i v t

/-! ## Statements -/

variable {host : Host σ ι}

theorem stays_fail (site : Option Site) (cause : Cause) :
    Keeps (Stays i) (fail site cause : ScriptM σ ι α) :=
  (Keeps.fail (calm_tolerant i) site cause).stays

/-- A change of the script that leaves its cursor and its suspension is calm. -/
theorem calm_change {f : Script ι → Script ι}
    (hf : ∀ s, (f s).cursor = s.cursor ∧ (f s).activity = s.activity) :
    Keeps (Calm i) (modifyScript i f : ScriptM σ ι Unit) :=
  .modifyScript fun w => calm_modifyScript i i w hf

theorem calm_standsIn (t : Statement) : Keeps (Calm i) (standsIn i t : ScriptM σ ι Bool) :=
  .bind (calm_tolerant i) (.script (calm_tolerant i) i) fun _ => .pure (calm_tolerant i) _

theorem calm_countPass : Keeps (Calm i) (countPass i : ScriptM σ ι Unit) := by
  unfold countPass
  refine .bind (calm_tolerant i) (.script (calm_tolerant i) i) fun s => ?_
  split
  · exact .throw (calm_tolerant i) _
  · exact calm_change fun _ => ⟨rfl, rfl⟩

theorem stays_skipBranch (t : Statement) (head : Site) :
    Keeps (Stays i) (skipBranch i t head : ScriptM σ ι Unit) := by
  unfold skipBranch
  refine .before_stays (.script (calm_tolerant i) i) fun s => ?_
  split
  · exact stays_fail _ _
  · exact (frees_clearTimeout ((unbegun_drives i).walks.moveTo _)).stays

theorem stays_exitLoop (t : Statement) (head : Site) :
    Keeps (Stays i) (exitLoop i t head : ScriptM σ ι Unit) := by
  unfold exitLoop
  refine .before_stays (.script (calm_tolerant i) i) fun s => ?_
  split
  · exact stays_fail _ _
  · exact (frees_advance.after_modifyScript.after_modifyScript).stays

theorem stays_followCount (t : Statement) (head : Site) :
    Keeps (Stays i) (followCount i t head : ScriptM σ ι Unit) := by
  unfold followCount
  refine .before_stays (.script (calm_tolerant i) i) fun s => ?_
  split
  · exact stays_exitLoop t head
  · exact .ite frees_advance.stays (stays_exitLoop t head)

theorem stays_followElement (t : Statement) (head : Site) (name : String) (list : Site)
    (listName : String) :
    Keeps (Stays i) (followElement i t head name list listName : ScriptM σ ι Unit) := by
  have hL := calm_lenient (σ := σ) (ι := ι) i
  unfold followElement
  refine .before_stays (.script hL i) fun s => ?_
  refine .before_stays (keeps_listElement hL list listName _) fun value => ?_
  split
  · exact frees_advance.after_modifyScript.stays
  · exact .before_stays (calm_change fun _ => ⟨rfl, rfl⟩) fun _ => stays_exitLoop t head

theorem stays_executeFor (t : Statement) (head : Site) :
    Keeps (Stays i) (executeFor i t head : ScriptM σ ι Unit) := by
  have hL := calm_lenient (σ := σ) (ι := ι) i
  have follow := stays_followCount (σ := σ) (ι := ι) (i := i) t head
  unfold executeFor
  split
  · exact stays_fail _ _
  · refine .ite (stays_fail _ _) (.before_stays (calm_standsIn t) fun b => .ite ?_ ?_)
    · refine .before_stays (calm_change fun _ => ⟨rfl, rfl⟩) fun _ => ?_
      refine .before_stays (.reading hL _) fun n => ?_
      exact .before_stays (calm_change fun _ => ⟨rfl, rfl⟩) fun _ => follow
    · exact .before_stays calm_countPass fun _ => follow

theorem stays_executeForEach (t : Statement) (head : Site) :
    Keeps (Stays i) (executeForEach i t head : ScriptM σ ι Unit) := by
  unfold executeForEach
  split
  · rename_i name list listName _ _
    have follow := stays_followElement (σ := σ) (ι := ι) (i := i) t head name list listName
    refine .before_stays (calm_standsIn t) fun b => .ite ?_ ?_
    · refine .before_stays (calm_change fun _ => ⟨rfl, rfl⟩) fun _ => ?_
      exact .before_stays (calm_change fun _ => ⟨rfl, rfl⟩) fun _ => follow
    · exact .before_stays calm_countPass fun _ => follow
  · exact stays_fail _ _

theorem stays_executeBreak (t : Statement) (head : Site) :
    Keeps (Stays i) (executeBreak i t head : ScriptM σ ι Unit) := by
  unfold executeBreak
  refine .before_stays (.script (calm_tolerant i) i) fun s => ?_
  split
  · exact (frees_advance.after_modifyScript.after_modifyScript).stays
  · exact stays_fail _ _

variable (hh : host.Keeps (Calm i))
include hh

theorem stays_executeIf (t : Statement) (head : Site) :
    Keeps (Stays i) (executeIf host i t head) := by
  unfold executeIf
  refine .before_stays (calm_change fun _ => ⟨rfl, rfl⟩) fun _ => ?_
  refine .before_stays (keeps_evaluateGuard (calm_tolerant i) i hh head) fun b => ?_
  refine .ite frees_advance.stays (.before_stays (.script (calm_tolerant i) i) fun s => ?_)
  split
  · exact stays_fail _ _
  · -- the wait ends before the guards of the further branches are asked
    have hserves := (hh.mono fun _ _ h => h.unbegun).serves
    have hbranches := (unbegun_drives i).walks.enterBranch hserves
    exact (frees_clearTimeout (hbranches _ _)).stays

theorem stays_executeWhile (t : Statement) (head : Site) :
    Keeps (Stays i) (executeWhile host i t head) := by
  have ask : Keeps (Stays i) (do
      if ← evaluateGuard host i head then advance i else exitLoop i t head) := by
    refine .before_stays (keeps_evaluateGuard (calm_tolerant i) i hh head) fun b => ?_
    exact .ite frees_advance.stays (stays_exitLoop t head)
  unfold executeWhile
  refine .before_stays (calm_standsIn t) fun b => .ite ?_ ask
  exact .before_stays (calm_change fun _ => ⟨rfl, rfl⟩) fun _ => ask

/-! ## Commands -/

omit hh in
/-- A change of a suspension leaves the cursor. -/
theorem sameCursor_of_suspends (i : Nat) {j : Nat} {f : Script ι → Script ι} (w : World σ ι)
    (hf : Script.Suspends f) : SameCursor i w (w.modifyScript j f) := by
  refine sameCursor_modifyScript i j w fun s => ?_
  obtain ⟨_, _, _, he⟩ := hf s
  rw [he]

omit hh in
/-- The bundled commands leave the cursor, unless they jump or return. -/
theorem sameCursor_keepsFor {c : Bundled.Command} (hg : c ≠ .goto) (hr : c ≠ .return_) :
    Bundled.KeepsFor (SameCursor (σ := σ) (ι := ι) i) c :=
  Bundled.keepsFor_of_suspends (sameCursor_lenient i).toTolerant
    (fun _ _ w => sameCursor_of_suspends i w) hg hr

omit hh in
/-- A jump begins no wait. -/
theorem unbegun_gotoLine (line : Int) : Keeps (Unbegun i) (gotoLine line : ScriptM σ ι Bool) := by
  refine keeps_gotoLine (unbegun_drives i).toTolerant fun j w s hs => ?_
  obtain ⟨t, rfl⟩ := Script.gotoLine?_eq_some hs
  unfold Unbegun Waiting
  rw [World.script_modifyScript]
  split
  · rename_i hj
    rw [hj.1]
    exact id
  · exact id

omit hh in
/-- Where the script goes on it does not wait. -/
theorem stays_goOn {x : ScriptM σ ι Bool} {v : World σ ι}
    (h : (∃ u, x v = .ok true u) ∨ Stays i v (x.after v)) :
    Stays i v ((do
      if ← x then advance i : ScriptM σ ι Unit).after v) := by
  cases hx : x v with
  | error fault u =>
    rw [after_bind_of_error hx]
    rcases h with ⟨u', hu'⟩ | h
    · cases hu'.symm.trans hx
    · rwa [after_of_error hx] at h
  | ok b u =>
    rw [after_bind_of_ok hx]
    cases b with
    | true => exact stays_of_not_waiting (frees_advance u)
    | false =>
      rcases h with ⟨u', hu'⟩ | h
      · cases hu'.symm.trans hx
      · rwa [after_of_ok hx] at h

variable (hc : ∀ t word args quiet force, Keeps (Stays i) (host.command t word args quiet force))
include hc

/-- A command of a waiting script stays, unless it jumps. -/
theorem stays_command {t : Statement} {v : World σ ι} (hs : t.site.kind = .statement)
    (hcommand : t.isCommand = true) (h : Waiting i v → ∀ args, ¬ t.Asks i .goto args v) :
    Stays i v ((executeStatement host i t).after v) := by
  rw [executeStatement_of_command host hs hcommand]
  refine stays_goOn ?_
  rcases executeCommand_cases host i t.site.children v with
    ⟨fault, he⟩ | ⟨site, word, rest, handler, args, hk, hget, hrest, he⟩
  · right
    rw [after_of_error he]
    exact (Calm.cursor ((calm_lenient i).refl v)).stays
  · rw [he, after_congr he]
    cases handler with
    | host token =>
      exact .inr ((hc token word args _ _).stays_before
        (fun _ => (Keeps.pure (calm_tolerant i) _).holds) v)
    | bundled c =>
      by_cases hg : c = .goto
      · subst hg
        right
        have hasks : t.Asks i .goto args v :=
          ⟨hs, hcommand, site, word, rest, hk, hget, hrest⟩
        refine stays_of_not_waiting fun hw => ?_
        refine h ?_ args hasks
        have hL := (unbegun_drives (σ := σ) (ι := ι) i).toLenient
        exact keeps_runCommand hL (hh.mono fun _ _ h => h.unbegun) .goto unbegun_gotoLine args _ v
          hw
      · by_cases hr : c = .return_
        · subst hr
          exact .inl ⟨_, rfl⟩
        · right
          have hL := sameCursor_lenient (σ := σ) (ι := ι) i
          exact (keeps_runCommand hL (hh.mono fun _ _ h => h.cursor) c (sameCursor_keepsFor hg hr)
            args _ v).stays

omit hc in
/-- A statement that is no command stays, if it does not displace by its kind: it ends the wait when
it moves the cursor. -/
theorem stays_executeHead {t : Statement} {head : Site}
    (hn : ¬ (head.kind = .command ∨ head.kind = .quiet ∨ head.kind = .force ∨ head.kind = .negate))
    (hd : head.kind.displaces = false) : Keeps (Stays i) (executeHead host i t head) := by
  unfold executeHead
  split
  case h_1 => exact stays_executeIf hh t head
  case h_2 => exact stays_skipBranch t head
  case h_3 => exact stays_skipBranch t head
  case h_4 => exact frees_advance.after_modifyScript.stays
  case h_5 => exact stays_executeWhile hh t head
  case h_6 => exact stays_executeFor t head
  case h_7 => exact stays_executeForEach t head
  case h_10 => exact stays_executeBreak t head
  case h_14 hk => exact absurd (.inl hk) hn
  case h_15 hk => exact absurd (.inr (.inl hk)) hn
  case h_16 hk => exact absurd (.inr (.inr (.inl hk))) hn
  case h_17 hk => exact absurd (.inr (.inr (.inr hk))) hn
  case h_18 => exact stays_fail _ _
  all_goals
    rename_i hk
    rw [hk] at hd
    cases hd

/-- **A statement of a waiting script stays**, unless it is one that displaces. -/
theorem stays_executeStatement {t : Statement} {v : World σ ι}
    (h : Waiting i v → ¬ t.Displaces i v) : Stays i v ((executeStatement host i t).after v) := by
  by_cases hs : t.site.kind = .statement
  · by_cases hcommand : t.isCommand = true
    · exact stays_command hh hc hs hcommand fun hw args hasks => h hw (.jumps hasks)
    · unfold executeStatement
      rw [if_neg (not_not_intro hs)]
      cases hhead : t.head? with
      | none => exact stays_fail _ _ v
      | some head =>
        have hn : ¬ (head.kind = .command ∨ head.kind = .quiet ∨ head.kind = .force ∨
            head.kind = .negate) :=
          fun hkind => hcommand (Statement.isCommand_iff.mpr ⟨head, hhead, hkind⟩)
        have hkind : t.headKind? = some head.kind := by
          unfold Statement.headKind?
          rw [if_pos hs, hhead]
          rfl
        cases hd : head.kind.displaces with
        | true =>
          -- a script that does not wait does not begin to wait there
          refine stays_of_not_waiting fun hw => ?_
          have hdriven : Keeps (Unbegun i) (executeHead host i t head) :=
            (unbegun_drives i).executeHead (hh.mono fun _ _ h => h.unbegun)
              fun hkind => absurd hkind hn
          exact h (hdriven v hw) (.moves hkind hd)
        | false => exact stays_executeHead hh hn hd v
  · unfold executeStatement
    rw [if_pos hs]
    exact stays_fail _ _ v

/-! ## Ticks -/

omit hc in
/-- If the script waits when its statement is run, this is not one that displaces it. -/
def Undisplaced (host : Host σ ι) (i : Nat) (u : World σ ι) : Prop :=
  ∀ t, (u.script i).cursor = some t → ∀ e v, (do
    emit host (.beforeStatement i t)
    logStep i t) u = .ok e v → Waiting i v → ¬ t.Displaces i v

/-- What runs the statement under the cursor stays. -/
theorem stays_executeNext {t : Statement} {v : World σ ι} (hcursor : (v.script i).cursor = some t)
    (h : Waiting i v → ¬ t.Displaces i v) : Stays i v ((executeNext host i).after v) := by
  have hL := calm_lenient (σ := σ) (ι := ι) i
  rw [after_congr (executeNext_of_cursor host i hcursor)]
  refine Keeps.after_seq (stays_executeStatement hh hc h) (fun _ => ?_) id Stays.trans_holds
  exact (Keeps.bind hL (.script hL i) fun s => .pure hL _).holds

omit hc in
/-- Listeners and the log stand before the statement, and they are calm. -/
theorem calm_before (t : Statement) : Keeps (Calm i) (do
    emit host (.beforeStatement i t)
    logStep i t) := by
  have hL := calm_lenient (σ := σ) (ι := ι) i
  exact .bind hL (keeps_emit hL hh _) fun _ => keeps_logStep hL.logged i t

omit hc in
/-- Who does not wait is not displaced. -/
theorem undisplaced_of_not_waiting {u : World σ ι} (h : ¬ Waiting i u) : Undisplaced host i u :=
  fun t _ _ _ hbefore hw => absurd (((calm_before hh t).ok hbefore).unbegun hw) h

/-- A statement with everything around it stays. -/
theorem stays_stepStatement {t : Statement} {u : World σ ι}
    (hcursor : (u.script i).cursor = some t) (h : Undisplaced host i u) :
    Stays i u ((stepStatement host i t).after u) := by
  have hL := calm_lenient (σ := σ) (ι := ι) i
  have before := calm_before hh t
  unfold stepStatement
  rw [← bind_assoc]
  cases hbefore : (do
      emit host (.beforeStatement i t)
      logStep i t) u with
  | error fault v =>
    have hv : Calm i u v := by
      have := before u
      rwa [after_of_error hbefore] at this
    rw [after_bind_of_error hbefore]
    exact hv.cursor.stays
  | ok e v =>
    have hv : Calm i u v := before.ok hbefore
    rw [after_bind_of_ok hbefore]
    -- so this is the statement that was under the cursor
    have hnext := stays_executeNext hh hc (hv.cursor.trans hcursor) (h t hcursor e v hbefore)
    rw [← after_attempt] at hnext
    refine hv.trans_stays (Keeps.after_seq hnext (fun r => Keeps.holds ?_) id Stays.trans_holds)
    split
    · exact .bind hL (keeps_emit hL hh _) fun _ => .throw hL _
    · refine .bind hL (keeps_afterStep hL hh i t e) fun _ => .ite ?_ (.pure hL _)
      exact .bind hL (keeps_finish hL (hL.activated none) hh i) fun _ => .pure hL _

/-- **A step of a script stays**, if its statement does not displace it while it waits. -/
theorem stays_step {u : World σ ι} (h : Undisplaced host i u) :
    Stays i u ((step host i).after u) := by
  have hL := calm_lenient (σ := σ) (ι := ι) i
  cases hcursor : (u.script i).cursor with
  | none =>
    rw [after_congr (step_of_none host i hcursor)]
    exact (Keeps.bind hL (keeps_finish hL (hL.activated none) hh i) fun _ => .pure hL _).stays u
  | some t =>
    rw [after_congr (step_of_some host i hcursor)]
    exact stays_stepStatement hh hc hcursor h

omit hh hc in
/-- If no callback moves a waiting script, asking one does not. -/
theorem stays_ask (hk : ∀ t, Keeps (Stays i) (host.callback t)) (c : Callback ι) :
    Keeps (Stays i) (ask host c) := by
  have hL := calm_lenient (σ := σ) (ι := ι) i
  cases c with
  | giveUp => exact (Keeps.pure hL _).stays
  | host t => exact (hk t).stays_before fun _ => (Keeps.pure hL _).holds

omit hh hc in
/-- **The chance of a script begins no wait and moves no waiting script**, if no callback does. -/
theorem holds_chance (hk : ∀ t, Keeps (Stays i) (host.callback t)) :
    Keeps (Holds i) (chance host i) := by
  have hL := calm_lenient (σ := σ) (ι := ι) i
  intro w
  let w₀ : World σ ι := { w with active := some i }
  have hw₀ : Calm i w w₀ := hL.idle ⟨rfl, rfl, rfl, rfl, fun _ => rfl⟩
  have hactive : (modify fun w => { w with active := some i } : ScriptM σ ι Unit) w = .ok () w₀ :=
    rfl
  unfold chance
  rw [after_bind_of_ok hactive, after_script_bind]
  refine hw₀.holds.trans ?_
  split
  · exact ((calm_lenient i).refl w₀).holds
  · refine Keeps.holds ?_ w₀
    refine .bind hL (.get hL) fun w => .bind hL (keeps_deadlineOf hL i) fun d => ?_
    refine .ite (.pure hL _) (.bind hL (.modifyScript fun w => ?_) fun _ => .pure hL _)
    refine ⟨sameCursor_modifyScript i i w fun s => ?_, unbegun_modifyScript i i w fun s => ?_⟩
    · unfold Script.unpause
      split
      · rfl
      · rfl
    · unfold Script.unpause
      split
      · exact nofun
      · exact id
  · rename_i hwait
    have go : Keeps (Holds i) (do
        if (← script i).activity = .running then return .run else return .abandon :
        ScriptM σ ι Chance) :=
      (Keeps.bind hL (.script hL i) fun s => .ite (.pure hL _) (.pure hL _)).holds
    refine fun hw' => ⟨hwait, ?_⟩
    revert hw'
    show Stays i w₀ _
    refine Keeps.before_stays (keeps_deadlineOf hL i) (fun d => ?_) w₀
    refine .before_stays (.get hL) fun w => .ite ?_ (Keeps.pure hL _).stays
    refine .before_stays (.script hL i) fun s => ?_
    refine .before_stays (calm_change fun _ => ⟨rfl, rfl⟩) fun _ => ?_
    cases s.callback with
    | none => exact go.mono fun _ _ h hw => (h hw).2
    | some c =>
      refine (stays_ask hk c).stays_before fun b => .ite ?_ go
      -- a script that goes on does not wait
      refine Keeps.seq (Q := fun _ v => ¬ Waiting i v) frees_advance (fun _ => go) ?_ ?_
      · exact fun hv hw => absurd hw hv
      · exact fun hv hvw hw => absurd (hvw hw).1 hv

end

end

section

variable {σ ι : Type} {i : Nat}

/-! ## Operations -/

/-- An operation moves the cursor of the script and leaves a wait as it is: a jump to a line that is
there, the way back from one, and the loading of a tree. -/
def Operation.Displaces (i : Nat) (w : World (Ledger σ ι) ι) : Operation ι → Prop
  | .goto j line => j = i ∧ ((w.script i).statementOn? line).isSome
  | .gotoActive line => w.active = some i ∧ ((w.script i).statementOn? line).isSome
  | .comeBack j => j = i ∧ (w.script i).returns ≠ []
  | .comeBackActive => w.active = some i ∧ (w.script i).returns ≠ []
  | .replace j _ => j = i
  | _ => False

/-- A change of some script stays, if it is not this one that waits and is moved. -/
theorem stays_modifyScript {j : Nat} {f : Script ι → Script ι} {w : World σ ι}
    (h : j = i → (f (w.script i)).activity = .timingOut →
      (f (w.script i)).cursor = (w.script i).cursor) : Stays i w (w.modifyScript j f) := by
  unfold Stays Waiting SameCursor
  rw [World.script_modifyScript]
  split
  · rename_i hj
    exact h hj.1
  · exact fun _ => rfl

theorem stays_gotoScript {j : Nat} {line : Int} {w : World σ ι}
    (h : Waiting i w → ¬ (j = i ∧ ((w.script i).statementOn? line).isSome)) :
    Stays i w ((gotoScript j line).after w) := by
  cases hs : (w.script j).gotoLine? line with
  | none =>
    rw [after_of_ok (gotoScript_of_none hs)]
    exact fun _ => rfl
  | some s =>
    rw [after_of_ok (gotoScript_of_some hs)]
    refine stays_modifyScript fun hj hw => ?_
    subst hj
    have hsome : ((w.script j).statementOn? line).isSome := by
      unfold Script.gotoLine? at hs
      rw [Option.map_eq_some_iff] at hs
      obtain ⟨t, ht, -⟩ := hs
      rw [ht]
      rfl
    -- a jump leaves the suspension, so the script has waited before
    obtain ⟨t, rfl⟩ := Script.gotoLine?_eq_some hs
    exact absurd ⟨rfl, hsome⟩ (h hw)

theorem stays_returnFromGoto {j : Nat} {w : World σ ι}
    (h : Waiting i w → ¬ (j = i ∧ (w.script i).returns ≠ [])) :
    Stays i w (w.modifyScript j Script.returnFromGoto) := by
  refine stays_modifyScript fun hj hw => ?_
  cases hreturns : (w.script i).returns with
  | nil => rw [Script.returnFromGoto_of_nil hreturns]
  | cons t rest =>
    rw [(w.script i).returnFromGoto_suspension.1] at hw
    exact absurd ⟨hj, by rw [hreturns]; exact nofun⟩ (h hw)

/-- To note that a callback was armed moves no script. -/
theorem sameCursor_arming {j : Nat} {c : Option (Callback ι)}
    {x : ScriptM (Ledger σ ι) ι Unit} (hx : Keeps (SameCursor i) x) :
    Keeps (SameCursor i) (arming j c x) := by
  have hL := sameCursor_lenient (σ := Ledger σ ι) (ι := ι) i
  unfold arming
  refine .bind hL (.script hL j) fun before => .bind hL hx fun _ => .modify fun w => ?_
  unfold World.noteArming
  split
  · split
    · rfl
    · rfl
  · rfl

/-- **An operation stays**, unless it displaces the script while it waits. -/
theorem Operation.stays (o : Operation ι) {w : World (Ledger σ ι) ι}
    (h : Waiting i w → ¬ o.Displaces i w) : Stays i w (o.perform.after w) := by
  have hL := sameCursor_lenient (σ := Ledger σ ι) (ι := ι) i
  have still : ∀ {x : ScriptM (Ledger σ ι) ι Unit}, Keeps (SameCursor i) x →
      Stays i w (x.after w) := fun hx => (hx w).stays
  have change : ∀ j {f : Script ι → Script ι}, Script.Suspends f →
      Keeps (SameCursor i) (modifyScript j f : ScriptM (Ledger σ ι) ι Unit) :=
    fun j _ hf => .modifyScript fun w => sameCursor_of_suspends i w hf
  cases o with
  | pause j d =>
    exact still (keeps_pauseScript hL (fun d w =>
      sameCursor_of_suspends i w (Script.suspends_pause d)) d)
  | unpause j => exact still (change j Script.suspends_unpause)
  | timeout j d c =>
    exact still (sameCursor_arming (keeps_timeoutScript hL (fun d w =>
      sameCursor_of_suspends i w (Script.suspends_timeout d c)) d))
  | clearTimeout j => exact still (change j Script.suspends_clearTimeout)
  | advance j =>
    exact stays_modifyScript fun _ hw => absurd hw (w.script i).activity_clearTimeout
  | goto j line =>
    exact Keeps.after_seq (stays_gotoScript h)
      (fun _ => (Keeps.pure (calm_tolerant i) _).holds) id Stays.trans_holds
  | comeBack j => exact stays_returnFromGoto h
  | reset j => exact stays_modifyScript fun _ hw => nomatch hw
  | replace j root => exact stays_modifyScript fun hj hw => absurd hj (h hw)
  | pauseActive d =>
    exact still (keeps_pause hL (fun j d w =>
      sameCursor_of_suspends i w (Script.suspends_pause d)) d)
  | unpauseActive =>
    exact still (.bind hL (keeps_requireActive hL _) fun j => change j Script.suspends_unpause)
  | timeoutActive d c =>
    refine still (.bind hL (keeps_requireActive hL _) fun j => sameCursor_arming ?_)
    exact keeps_timeout hL (fun j d w =>
      sameCursor_of_suspends i w (Script.suspends_timeout d c)) d
  | clearTimeoutActive =>
    exact still (.bind hL (keeps_requireActive hL _) fun j => change j Script.suspends_clearTimeout)
  | gotoActive line =>
    refine Keeps.after_seq (Q := Stays i) ?_ (fun _ => (Keeps.pure (calm_tolerant i) _).holds) id
      Stays.trans_holds
    cases ha : w.active with
    | none =>
      rw [after_of_ok (gotoLine_of_none ha line)]
      exact fun _ => rfl
    | some j =>
      rw [after_congr (gotoLine_of_some ha line)]
      refine stays_gotoScript fun hw hj => h hw ⟨?_, hj.2⟩
      rw [ha, hj.1]
  | comeBackActive =>
    show Stays i w (w.modifyActive Script.returnFromGoto)
    unfold World.modifyActive
    cases ha : w.active with
    | none => exact fun _ => rfl
    | some j =>
      refine stays_returnFromGoto fun hw hj => h hw ⟨?_, hj.2⟩
      rw [ha, hj.1]
  | resetActive =>
    show Stays i w (w.modifyActive Script.clearTimeout)
    unfold World.modifyActive
    cases w.active with
    | none => exact fun _ => rfl
    | some j => exact (sameCursor_of_suspends i w Script.suspends_clearTimeout).stays
  | stopActive =>
    show Stays i w (w.modifyActive Script.release)
    unfold World.modifyActive
    cases w.active with
    | none => exact fun _ => rfl
    | some j => exact stays_modifyScript fun _ hw => nomatch hw
  | create name root =>
    show Stays i w { w with scripts := w.scripts.push (.start name root) }
    unfold Stays Waiting SameCursor
    rw [World.script_push]
    split
    · exact nofun
    · exact fun _ => rfl

/-! ## Runs -/

/-- The statement that a wait belongs to after the next step: that of the wait that is pending, or
else the one that is now under the cursor, if a wait begins. -/
def armedOn (i : Nat) (m : Option Statement) (w : World σ ι) : Option Statement :=
  if (w.script i).activity = .timingOut then m else (w.script i).cursor

/-- A run, with the statement for which the last wait of a script was begun.  Operations and ticks
may come in any order, but none that displaces the script while it waits; in between, anything may
happen that is calm. -/
inductive Watched (host : Host (Ledger σ ι) ι) (i : Nat) :
    Option Statement → World (Ledger σ ι) ι → Prop
  /-- At first the script does not wait. -/
  | start {w} (m) : ¬ Waiting i w → Watched host i m w
  /-- Something happens to the clock, the stores or the other scripts. -/
  | meanwhile {m w w'} : Watched host i m w → Calm i w w' → Watched host i m w'
  /-- An operation. -/
  | operation {m w} (o : Operation ι) : Watched host i m w → (Waiting i w → ¬ o.Displaces i w) →
      Watched host i (armedOn i m w) (o.perform.after w)
  /-- A tick that executes a statement, or finds none. -/
  | tick {m w u} : Watched host i m w → chance host i w = .ok .run u → Undisplaced host i u →
      Watched host i (armedOn i m u) ((Cadence.tick host i).after w)
  /-- A tick in which the script does not get its chance. -/
  | denied {m w} : Watched host i m w → (∀ u, chance host i w ≠ .ok .run u) →
      Watched host i m ((Cadence.tick host i).after w)

/-- What stays in a wait is where the wait belongs. -/
theorem Stays.cursor_eq_armedOn {m : Option Statement} {w w' : World σ ι} (h : Stays i w w')
    (hw : Waiting i w → (w.script i).cursor = m) (hw' : Waiting i w') :
    (w'.script i).cursor = armedOn i m w := by
  unfold armedOn
  split
  · rename_i hwait
    exact (h hw').trans (hw hwait)
  · exact h hw'

variable {host : Host (Ledger σ ι) ι} (hh : host.Keeps (Calm i))
  (hk : ∀ t, Keeps (Stays i) (host.callback t))
include hh hk

/-- A tick in which the script does not get its chance begins no wait and moves no waiting script. -/
theorem holds_tick_of_denied {w : World (Ledger σ ι) ι} (h : ∀ u, chance host i w ≠ .ok .run u) :
    Holds i w ((tick host i).after w) := by
  have hL := calm_lenient (σ := Ledger σ ι) (ι := ι) i
  have hw := holds_chance hk w
  rw [tick_eq_chance]
  cases hchance : chance host i w with
  | error fault u =>
    rw [after_of_error hchance] at hw
    rwa [after_bind_of_error hchance]
  | ok c u =>
    rw [after_of_ok hchance] at hw
    rw [after_bind_of_ok hchance]
    cases c with
    | wait => exact hw
    | abandon =>
      have hover : Keeps (Calm i) (do
          finish host i
          return false : ScriptM (Ledger σ ι) ι Bool) :=
        .bind hL (keeps_finish hL (hL.activated none) hh i) fun _ => .pure hL _
      exact hw.trans (hover u).holds
    | run => exact absurd hchance (h u)

variable (hc : ∀ t word args quiet force, Keeps (Stays i) (host.command t word args quiet force))
include hc

/-- In a run, a script that waits has its cursor where the wait was begun. -/
theorem Watched.cursor {m : Option Statement} {w : World (Ledger σ ι) ι}
    (h : Watched host i m w) : Waiting i w → (w.script i).cursor = m := by
  induction h with
  | start m hn => exact fun hw => absurd hw hn
  | meanwhile _ hcalm ih => exact fun hw => hcalm.cursor.trans (ih (hcalm.unbegun hw))
  | operation o _ hnot ih => exact (o.stays hnot).cursor_eq_armedOn ih
  | @tick m w u _ hchance hundisplaced ih =>
    -- the chance leaves a wait where it is, and the step stays
    have hu : Waiting i u → (u.script i).cursor = m := by
      intro hw
      have hheld := holds_chance hk w
      rw [after_of_ok hchance] at hheld
      obtain ⟨hwait, hcursor⟩ := hheld hw
      exact hcursor.trans (ih hwait)
    rw [after_congr (tick_of_chance host hchance)]
    exact (stays_step hh hc hundisplaced).cursor_eq_armedOn hu
  | @denied m w _ hdenied ih =>
    intro hw
    obtain ⟨hwait, hcursor⟩ := holds_tick_of_denied hh hk hdenied hw
    exact hcursor.trans (ih hwait)

/-- **A pending wait belongs to the statement for which it was begun**, in every run in which nothing
displaces the script while it waits: this statement is under the cursor, and when the deadline comes
and the callback lets the script go on, this statement is the one that is left behind. -/
theorem Watched.belongs {m : Option Statement} {w : World (Ledger σ ι) ι}
    (h : Watched host i m w) (hw : Waiting i w) :
    (w.script i).cursor = m ∧
    ∀ d c v, (w.script i).deadline = some d → d ≤ w.now → (w.script i).callback = some c →
      ask host c (({ w with active := some i } : World (Ledger σ ι) ι).modifyScript i
        Script.consume) = .ok true v → Waiting i v →
      ∃ u, chance host i w = .ok .run u ∧ (u.script i).cursor = m.bind Statement.next? ∧
        ¬ Waiting i u := by
  have hcursor := h.cursor hh hk hc hw
  refine ⟨hcursor, fun d c v hd hlate hcallback hask hv => ?_⟩
  let u : World (Ledger σ ι) ι :=
    ({ w with active := some i } : World (Ledger σ ι) ι).modifyScript i Script.consume
  have hwu : SameCursor i w u := sameCursor_modifyScript i i { w with active := some i } fun _ => rfl
  have huv : SameCursor i u v := by
    have hasked := stays_ask hk c u
    rw [after_of_ok hask] at hasked
    exact hasked hv
  have hvcursor : (v.script i).cursor = m := huv.trans (hwu.trans hcursor)
  have hi : i < v.scripts.size := World.lt_size_of_suspended (by rw [hv]; exact nofun)
  refine ⟨v.modifyScript i Script.advance, chance_of_asked host hi hw hd hlate hcallback hask hv,
    ?_, frees_advance v⟩
  rw [World.script_modifyScript_self _ hi, Script.advance_cursor, hvcursor]

end

/-! ## A run of a waiting script -/

/-- A script that waits for what nobody will say, and then clears its journal twice. -/
def attentiveRoot : Node where
  kind := .script
  children :=
    [{ kind := .statement, line := 1
       children := [{ kind := .command, lexeme := some "waitforjournal" },
         { kind := .string, lexeme := some "ready" }, { kind := .integer, lexeme := some "100" }] },
      wordLine 2 .command "clearjournal", wordLine 3 .command "clearjournal"]

/-- A world in which the script is about to wait. -/
def attentiveWorld : World (Ledger Unit Unit) Unit where
  host := { own := () }
  scripts := #[.start "attentive" attentiveRoot]
  registry :=
    { commands := (Table.empty.insert "clearjournal" (.bundled .clearJournal)).insert
        "waitforjournal" (.bundled .waitForJournal) }

theorem strictHost_keeps {R : World (Ledger Unit Unit) Unit → World (Ledger Unit Unit) Unit → Prop}
    (hL : Lenient R) : strictHost.Keeps R where
  expression _ _ _ _ := .pure hL _
  computedAlias _ _ := .pure hL _
  listener _ _ := .pure hL _
  rule _ _ := .pure hL _
  write _ := .pure hL _

theorem belongs_attentive :
    ∃ d, (((tick strictHost 0).after attentiveWorld).script 0).deadline = some d ∧
      (((tick strictHost 0).after attentiveWorld).script 0).cursor = some (lineOf attentiveRoot 0) ∧
      ∀ now, d ≤ now → ∃ u,
        chance strictHost 0 { (tick strictHost 0).after attentiveWorld with now } = .ok .run u ∧
          (u.script 0).cursor = some (lineOf attentiveRoot 1) := by
  have hcalm : strictHost.Keeps (Calm 0) := strictHost_keeps (calm_lenient 0)
  have hk : ∀ t, Keeps (Stays 0) (strictHost.callback t) := fun _ _ _ => rfl
  have hc : ∀ t word args quiet force,
      Keeps (Stays 0) (strictHost.command t word args quiet force) := fun _ _ _ _ _ _ _ => rfl
  have hwait : (((tick strictHost 0).after attentiveWorld).script 0).activity = .timingOut := by
    decide +kernel
  have hdeadline : (((tick strictHost 0).after attentiveWorld).script 0).deadline.isSome := by
    decide +kernel
  have hcallback : (((tick strictHost 0).after attentiveWorld).script 0).callback =
      some .giveUp := rfl
  have hruns : (attentiveWorld.script 0).activity = .running := rfl
  have hfresh : ¬ Waiting 0 attentiveWorld := by
    unfold Waiting
    rw [hruns]
    decide
  have hwatched : Watched strictHost 0 (some (lineOf attentiveRoot 0))
      ((tick strictHost 0).after attentiveWorld) :=
    .tick (.start none hfresh) (chance_of_running strictHost 0 hruns)
      (undisplaced_of_not_waiting hcalm hfresh)
  obtain ⟨d, hd⟩ := Option.isSome_iff_exists.mp hdeadline
  refine ⟨d, hd, (hwatched.belongs hcalm hk hc hwait).1, fun now hlate => ?_⟩
  have hlater : Watched strictHost 0 (some (lineOf attentiveRoot 0))
      { (tick strictHost 0).after attentiveWorld with now } := hwatched.meanwhile ⟨rfl, id⟩
  obtain ⟨u, hchance, hcursor, -⟩ := (hlater.belongs hcalm hk hc hwait).2 d .giveUp _ hd hlate
    hcallback rfl hwait
  exact ⟨u, hchance, hcursor⟩

/-- The script jumps to line 2 while it waits on line 1. -/
def distractedWorld : World (Ledger Unit Unit) Unit :=
  (Operation.goto 0 2).perform.after ((tick strictHost 0).after attentiveWorld)

/-- **A jump takes the wait along**: the script waits on line 2 then, and when the deadline comes,
line 2 is left behind. -/
theorem skips_target_of_goto :
    (distractedWorld.script 0).activity = .timingOut ∧
      (distractedWorld.script 0).currentLine = 2 ∧
      ((tick strictHost 0).after { distractedWorld with now := 100 }).log.entries.map
        LogEntry.line = [1, 3] := by
  decide +kernel

end Cadence
