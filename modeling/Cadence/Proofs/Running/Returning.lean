/-
  RETURNING — jumps and returns nest as calls do.

  A jump puts its statement on the stack of the points to go back to; a return takes the last of them
  off the stack and goes on behind it.

  1. **A statement** changes the stack in these two ways or not at all
     (`executeStatement_returns`), and so does a tick (`tick_returns`).

  2. **Away** — after a jump, the script is away until the stack is again what it was before the
     jump (`Away`).  However many jumps and returns there are on the way, the statement of the jump
     stays where it was put (`Away.returns`); so the return that takes it off goes on behind it
     (`goes_back`).

  Nobody but these statements may touch the stack (`Host.LeavesReturns`).
-/
import Cadence.Proofs.Running.Resting

namespace Cadence

open ScriptM

/-! ## The stack of one script -/

namespace Script

variable {ι : Type} {s : Script ι}

theorem clearTimeout_returns (s : Script ι) : s.clearTimeout.returns = s.returns := by
  unfold clearTimeout
  split
  · rfl
  · rfl

theorem clearTimeout_cursor (s : Script ι) : s.clearTimeout.cursor = s.cursor := by
  unfold clearTimeout
  split
  · rfl
  · rfl

/-- Going on leaves the stack alone. -/
theorem advance_returns (s : Script ι) : s.advance.returns = s.returns := s.clearTimeout_returns

theorem advance_cursor (s : Script ι) : s.advance.cursor = s.cursor.bind Statement.next? := by
  show s.clearTimeout.cursor.bind Statement.next? = _
  rw [s.clearTimeout_cursor]

/-- A jump to a line that is there puts the statement it comes from on the stack. -/
theorem gotoLine?_of_statementOn? {line : Int} {t : Statement} (h : s.statementOn? line = some t) :
    s.gotoLine? line = some { s with cursor := some t, returns := s.cursor.toList ++ s.returns } := by
  unfold gotoLine?
  rw [h]
  rfl

theorem gotoLine?_of_none {line : Int} (h : s.statementOn? line = none) :
    s.gotoLine? line = none := by
  unfold gotoLine?
  rw [h]
  rfl

/-- Without a point to go back to, a return just goes on. -/
theorem returnFromGoto_of_nil (h : s.returns = []) : s.returnFromGoto = s := by
  unfold returnFromGoto
  rw [h]

/-- A return goes on behind the last point, and takes it off the stack. -/
theorem returnFromGoto_of_cons {r : Statement} {rest : List Statement} (h : s.returns = r :: rest) :
    s.returnFromGoto = { s with cursor := some r, returns := rest } := by
  unfold returnFromGoto
  rw [h]

end Script

section

variable {σ ι : Type}

/-- A script has the same points to go back to. -/
def SameReturns (i : Nat) (w w' : World σ ι) : Prop :=
  (w'.script i).returns = (w.script i).returns

/-- A change of one script that leaves its points to go back to. -/
theorem sameReturns_modifyScript (i j : Nat) {f : Script ι → Script ι} (w : World σ ι)
    (hf : ∀ s, (f s).returns = s.returns) : SameReturns i w (w.modifyScript j f) :=
  same_modifyScript i j w hf

theorem sameReturns_lenient (i : Nat) : Lenient (SameReturns (σ := σ) (ι := ι) i) :=
  same_lenient Script.returns (fun _ => rfl) i

/-- The statements of a script leave its points to go back to, unless they are commands. -/
theorem sameReturns_drives (i : Nat) : Drives (SameReturns (σ := σ) (ι := ι) i) i where
  toLenient := sameReturns_lenient i
  place w _ _ := sameReturns_modifyScript i i w fun _ => rfl
  settle w := sameReturns_modifyScript i i w Script.clearTimeout_returns

/-- So do the bundled commands, unless they jump or return. -/
theorem sameReturns_keepsFor (i : Nat) {c : Bundled.Command} (hg : c ≠ .goto) (hr : c ≠ .return_) :
    Bundled.KeepsFor (SameReturns (σ := σ) (ι := ι) i) c := by
  refine Bundled.keepsFor_of_suspends (sameReturns_lenient i).toTolerant (fun j f w hf => ?_) hg hr
  refine sameReturns_modifyScript i j w fun s => ?_
  obtain ⟨_, _, _, he⟩ := hf s
  rw [he]

/-- Nothing that the host does touches the points to go back to, and its callbacks leave their script
the active one. -/
structure Host.LeavesReturns (i : Nat) (host : Host σ ι) : Prop
    extends host.Keeps (SameReturns i) where
  /-- Its commands do not. -/
  command : ∀ t word args quiet force,
    Cadence.Keeps (SameReturns i) (host.command t word args quiet force)
  /-- Its callbacks do not. -/
  callback : ∀ t, Cadence.Keeps (SameReturns i) (host.callback t)
  /-- Its callbacks leave their script the active one. -/
  active : ∀ t, Cadence.Keeps (fun w w' => w'.active = w.active) (host.callback t)

variable {host : Host σ ι} {i : Nat} {a t : Statement}

/-! ## Statements -/

/-- Whose cursor is on a statement is there. -/
theorem World.lt_size_of_cursor {w : World σ ι} (h : (w.script i).cursor = some t) :
    i < w.scripts.size := by
  rcases Nat.lt_or_ge i w.scripts.size with hi | hi
  · exact hi
  · rw [World.script_of_size_le hi] at h
    cases h

/-- A jump to a line that is there goes there, and the script is not to go on from there. -/
theorem executeCommand_of_goto {w : World σ ι} {line : Argument} {more : List Argument} {n : Int}
    {s : Script ι} (ha : a.Asks i .goto (line :: more) w) (hint : w.asInt line = .ok n)
    (hactive : w.active = some i) (hs : (w.script i).gotoLine? n = some s) :
    executeCommand host i a.site.children w = .ok false (w.modifyScript i fun _ => s) := by
  have hgoto : gotoLine n w = .ok true (w.modifyScript i fun _ => s) :=
    (gotoLine_of_some hactive n).trans (gotoScript_of_some hs)
  rw [executeCommand_of_asks host ha]
  show (Bundled.int line >>= fun n => gotoLine n >>= fun b => return !b : ScriptM σ ι Bool) w = _
  rw [bind_of_ok (int_of_asInt hint), bind_of_ok hgoto]
  rfl

theorem executeStatement_of_goto {w : World σ ι} {line : Argument} {more : List Argument} {n : Int}
    {s : Script ι} (ha : a.Asks i .goto (line :: more) w) (hint : w.asInt line = .ok n)
    (hactive : w.active = some i) (hs : (w.script i).gotoLine? n = some s) :
    executeStatement host i a w = .ok () (w.modifyScript i fun _ => s) := by
  rw [executeStatement_of_command host ha.statement ha.command,
    bind_of_ok (executeCommand_of_goto ha hint hactive hs)]
  rfl

/-- A jump to a line that is not there just goes on. -/
theorem executeStatement_of_goto_nowhere {w : World σ ι} {line : Argument} {more : List Argument}
    {n : Int} (ha : a.Asks i .goto (line :: more) w) (hint : w.asInt line = .ok n)
    (hactive : w.active = some i) (hs : (w.script i).gotoLine? n = none) :
    executeStatement host i a w = .ok () (w.modifyScript i Script.advance) := by
  have hgoto : gotoLine n w = .ok false w :=
    (gotoLine_of_some hactive n).trans (gotoScript_of_none hs)
  have hcommand : ∀ force, Bundled.runCommand host .goto (line :: more) force w = .ok true w := by
    intro force
    show (Bundled.int line >>= fun n => gotoLine n >>= fun b => return !b : ScriptM σ ι Bool) w = _
    rw [bind_of_ok (int_of_asInt hint), bind_of_ok hgoto]
    rfl
  rw [executeStatement_of_asks host ha, bind_of_ok (hcommand _)]
  rfl

/-- A return goes back, and then on. -/
theorem executeStatement_of_return {w : World σ ι} {args : List Argument}
    (ha : a.Asks i .return_ args w) (hactive : w.active = some i) :
    executeStatement host i a w =
      .ok () (w.modifyScript i fun s => s.returnFromGoto.advance) := by
  have hmodify : w.modifyActive Script.returnFromGoto =
      w.modifyScript i Script.returnFromGoto := by
    unfold World.modifyActive
    rw [hactive]
  have hcommand : ∀ force, Bundled.runCommand host .return_ args force w =
      .ok true (w.modifyScript i Script.returnFromGoto) := by
    intro force
    rw [← hmodify]
    rfl
  rw [executeStatement_of_asks host ha, bind_of_ok (hcommand _)]
  show EStateM.Result.ok () ((w.modifyScript i _).modifyScript i Script.advance) = _
  rw [World.modifyScript_modifyScript]

variable (host) in
/-- A jump puts its statement on the stack, or leaves the stack alone. -/
theorem returns_of_goto {v : World σ ι} {args : List Argument} (ha : t.Asks i .goto args v)
    (hactive : v.active = some i) (hcursor : (v.script i).cursor = some t) :
    SameReturns i v ((executeStatement host i t).after v) ∨
      (((executeStatement host i t).after v).script i).returns = t :: (v.script i).returns := by
  have hi := World.lt_size_of_cursor hcursor
  cases args with
  | nil =>
    left
    have hfail : executeStatement host i t v =
        .error (.at none (.usage (Bundled.Command.usage .goto))) v := by
      rw [executeStatement_of_asks host ha]
      rfl
    rw [after_of_error hfail]
    exact (sameReturns_lenient i).refl v
  | cons line more =>
    cases hint : v.asInt line with
    | error fault =>
      left
      have hread : Bundled.int line v = .error fault v := by
        show reading _ v = _
        rw [reading_apply, hint]
      have hcommand : ∀ force,
          Bundled.runCommand host .goto (line :: more) force v = .error fault v :=
        fun force => bind_of_error hread
      have hfail : executeStatement host i t v = .error fault v := by
        rw [executeStatement_of_asks host ha, bind_of_error (hcommand _)]
      rw [after_of_error hfail]
      exact (sameReturns_lenient i).refl v
    | ok n =>
      cases hs : (v.script i).statementOn? n with
      | none =>
        left
        rw [after_of_ok (executeStatement_of_goto_nowhere ha hint hactive
          (Script.gotoLine?_of_none hs))]
        exact sameReturns_modifyScript i i v Script.advance_returns
      | some u =>
        right
        rw [after_of_ok (executeStatement_of_goto ha hint hactive
          (Script.gotoLine?_of_statementOn? hs)), World.script_modifyScript_self _ hi]
        show (v.script i).cursor.toList ++ (v.script i).returns = _
        rw [hcursor]
        rfl

variable (host) in
/-- A return takes the last point off the stack and goes on behind it, if there is one. -/
theorem returns_of_return {v : World σ ι} {args : List Argument} (ha : t.Asks i .return_ args v)
    (hactive : v.active = some i) (hcursor : (v.script i).cursor = some t) :
    SameReturns i v ((executeStatement host i t).after v) ∨
      ∃ r rest, (v.script i).returns = r :: rest ∧
        (((executeStatement host i t).after v).script i).returns = rest ∧
        (((executeStatement host i t).after v).script i).cursor = r.next? := by
  have hi := World.lt_size_of_cursor hcursor
  rw [after_of_ok (executeStatement_of_return ha hactive), SameReturns,
    World.script_modifyScript_self _ hi]
  cases hreturns : (v.script i).returns with
  | nil =>
    left
    rw [Script.returnFromGoto_of_nil hreturns, Script.advance_returns, hreturns]
  | cons r rest =>
    right
    refine ⟨r, rest, rfl, ?_, ?_⟩
    · rw [Script.returnFromGoto_of_cons hreturns, Script.advance_returns]
    · rw [Script.returnFromGoto_of_cons hreturns, Script.advance_cursor]
      rfl

/-- **What a statement does to the stack**, whether it fails or not. -/
theorem executeStatement_returns (hr : host.LeavesReturns i) {v : World σ ι}
    (hactive : v.active = some i) (hcursor : (v.script i).cursor = some t) :
    SameReturns i v ((executeStatement host i t).after v) ∨
      (∃ args, t.Asks i .goto args v) ∧
        (((executeStatement host i t).after v).script i).returns = t :: (v.script i).returns ∨
      (∃ args, t.Asks i .return_ args v) ∧ ∃ r rest, (v.script i).returns = r :: rest ∧
        (((executeStatement host i t).after v).script i).returns = rest ∧
        (((executeStatement host i t).after v).script i).cursor = r.next? := by
  have hR := sameReturns_drives (σ := σ) (ι := ι) i
  by_cases hg : ∃ args, t.Asks i .goto args v
  · obtain ⟨args, ha⟩ := hg
    rcases returns_of_goto host ha hactive hcursor with h | h
    · exact .inl h
    · exact .inr (.inl ⟨⟨args, ha⟩, h⟩)
  by_cases hb : ∃ args, t.Asks i .return_ args v
  · obtain ⟨args, ha⟩ := hb
    rcases returns_of_return host ha hactive hcursor with h | h
    · exact .inl h
    · exact .inr (.inr ⟨⟨args, ha⟩, h⟩)
  left
  by_cases hs : t.site.kind = .statement
  · by_cases hcommand : t.isCommand = true
    · -- a command that neither jumps nor returns
      rw [executeStatement_of_command host hs hcommand]
      refine after_bind (P := SameReturns i v) ?_ fun b u hu =>
        hR.trans hu ((Keeps.ite hR.walks.advance (.pure hR.toLenient _)) u)
      refine after_executeCommand hR.toLenient hr.toKeeps hr.command
        fun site word rest args c hword hget hargs => ?_
      have hasks : t.Asks i c args v := ⟨hs, hcommand, site, word, rest, hword, hget, hargs⟩
      refine sameReturns_keepsFor i (fun hc => hg ?_) (fun hc => hb ?_)
      · exact ⟨args, hc ▸ hasks⟩
      · exact ⟨args, hc ▸ hasks⟩
    · refine hR.executeStatement hr.toKeeps (fun head hhead hkind => ?_) v
      exact absurd (Statement.isCommand_iff.mpr ⟨head, hhead, hkind⟩) hcommand
  · have hfail : executeStatement host i t v = .error (.at (some t.site) .invalidScript) v := by
      unfold executeStatement
      rw [if_pos hs]
      rfl
    rw [after_of_error hfail]
    exact hR.refl v

/-! ## Ticks -/

/-- In a tick of this world a statement is run that asks a command. -/
def Performs (host : Host σ ι) (i : Nat) (c : Bundled.Command) (t : Statement) (w : World σ ι) :
    Prop :=
  ∃ u args, chance host i w = .ok .run u ∧ (u.script i).cursor = some t ∧ t.Asks i c args u

theorem chance_returns (hr : host.LeavesReturns i) : Keeps (SameReturns i) (chance host i) := by
  have hR := (sameReturns_drives (σ := σ) (ι := ι) i).conducts
  refine keeps_chance host i hR.toTolerant hR.begun (fun w => ?_) (fun w => ?_) hR.walks.advance
    hr.callback
  · refine sameReturns_modifyScript i i w fun s => ?_
    unfold Script.unpause
    split
    · rfl
    · rfl
  · exact sameReturns_modifyScript i i w fun _ => rfl

/-- The script that has its chance is the active one. -/
theorem ends_chance_active
    (hk : ∀ t, Keeps (fun w w' => w'.active = w.active) (host.callback t)) :
    Ends (fun _ => True) (chance host i) fun _ w => w.active = some i := by
  have decide_ : Ends (fun w => w.active = some i) (do
      if (← script i).activity = .running then return .run else return .abandon :
      ScriptM σ ι Chance) fun _ w => w.active = some i :=
    .look (fun _ => rfl) fun s => .ite (fun _ => .pure fun _ h => h) fun _ => .pure fun _ h => h
  unfold chance
  refine .bind (.modify (Q := fun w => w.active = some i) fun _ _ => rfl) fun _ => ?_
  refine .look (fun _ => rfl) fun s => ?_
  cases s.activity with
  | running => exact .pure fun _ h => h
  | paused =>
    refine .look (fun _ => rfl) fun w => .look (after_deadlineOf i) fun d => ?_
    exact .ite (fun _ => .pure fun _ h => h) fun _ => .bind (.modify fun _ h => h) fun _ =>
      .pure fun _ h => h
  | timingOut =>
    refine .look (after_deadlineOf i) fun d => .look (fun _ => rfl) fun w => ?_
    refine .ite (fun _ => .look (fun _ => rfl) fun s => ?_) fun _ => .pure fun _ h => h
    refine .bind (.modify (Q := fun w => w.active = some i) fun _ h => h) fun _ => ?_
    cases s.callback with
    | none => exact decide_
    | some c =>
      have asked : Ends (fun w => w.active = some i) (ask host c) fun _ w => w.active = some i := by
        cases c with
        | giveUp => exact .pure fun _ h => h
        | host t =>
          refine .bind (.keeps (hk t) fun w w' hs hw => hs.trans hw) fun v => ?_
          exact .pure fun _ h => h
      refine .bind asked fun b => .ite (fun _ => ?_) fun _ => decide_
      exact .bind (.modify fun _ h => h) fun _ => decide_

/-- **What a tick does to the stack**, whether it fails or not. -/
theorem tick_returns (hh : host.Unobtrusive) (hr : host.LeavesReturns i) (w : World σ ι) :
    SameReturns i w ((tick host i).after w) ∨
      (∃ t, Performs host i .goto t w ∧
        (((tick host i).after w).script i).returns = t :: (w.script i).returns) ∨
      (∃ t, Performs host i .return_ t w) ∧ ∃ r rest, (w.script i).returns = r :: rest ∧
        (((tick host i).after w).script i).returns = rest ∧
        (((tick host i).after w).script i).cursor = r.next? := by
  have ended : ∀ {u : World σ ι}, SameReturns i w u → tick host i w = (do
      finish host i
      return false) u → SameReturns i w ((tick host i).after w) := by
    intro u hu htick
    obtain ⟨v, hfinish, hv⟩ := finish_unmoved hh i u
    rw [bind_of_ok hfinish] at htick
    rw [after_of_ok htick, SameReturns, hv.script i]
    exact hu
  cases hchance : chance host i w with
  | error fault u =>
    left
    have htick : tick host i w = .error fault u := by
      rw [tick_eq_chance, bind_of_error hchance]
    rw [after_of_error htick, ← after_of_error hchance]
    exact chance_returns hr w
  | ok c u =>
    have hu : SameReturns i w u := (chance_returns hr).ok hchance
    cases c with
    | wait =>
      left
      have htick : tick host i w = .ok true u := by
        rw [tick_eq_chance, bind_of_ok hchance]
        rfl
      rw [after_of_ok htick]
      exact hu
    | abandon =>
      left
      refine ended hu ?_
      rw [tick_eq_chance, bind_of_ok hchance]
    | run =>
      cases hcursor : (u.script i).cursor with
      | none =>
        left
        refine ended hu ?_
        rw [tick_of_chance host hchance, step_of_none host i hcursor]
      | some t =>
        obtain ⟨v, huv, hscript⟩ := script_after_tick hh hchance hcursor
        have hactive : v.active = some i :=
          huv.active.trans (ends_chance_active hr.active w _ u trivial hchance)
        have hvcursor : (v.script i).cursor = some t := by rw [huv.script i, hcursor]
        have hvreturns : (v.script i).returns = (w.script i).returns := by
          rw [huv.script i]
          exact hu
        have performs : ∀ c, (∃ args, t.Asks i c args v) → Performs host i c t w :=
          fun c ⟨args, ha⟩ => ⟨u, args, hchance, hcursor, ha.congr huv.commands.symm⟩
        unfold SameReturns
        rw [hscript, ← hvreturns]
        rcases executeStatement_returns hr hactive hvcursor with h | ⟨ha, h⟩ | ⟨ha, h⟩
        · exact .inl h
        · exact .inr (.inl ⟨t, performs _ ha, h⟩)
        · exact .inr (.inr ⟨⟨t, performs _ ha⟩, h⟩)

/-! ## Away -/

/-- The script is ticked, until its stack is again what it was.  In between, anything may happen that
leaves the stack as it is. -/
inductive Away (host : Host σ ι) (i : Nat) (S : List Statement) (w : World σ ι) : World σ ι → Prop
  /-- Nothing has happened yet. -/
  | start : Away host i S w w
  /-- Something happens elsewhere. -/
  | meanwhile {u v} : Away host i S w u → SameReturns i u v → Away host i S w v
  /-- The script gets a tick, which may fail, and the stack is not what it was. -/
  | tick {u} : Away host i S w u → (((tick host i).after u).script i).returns ≠ S →
      Away host i S w ((tick host i).after u)

/-- **Away from a jump, its statement stays on the stack where it was put.** -/
theorem Away.returns (hh : host.Unobtrusive) (hr : host.LeavesReturns i) {S : List Statement}
    {g : Statement} {w v : World σ ι} (hw : (w.script i).returns = g :: S)
    (h : Away host i S w v) : ∃ above, (v.script i).returns = above ++ g :: S := by
  induction h with
  | start => exact ⟨[], hw⟩
  | meanwhile _ hsame ih =>
    obtain ⟨above, hu⟩ := ih
    exact ⟨above, hsame.trans hu⟩
  | @tick u _ hne ih =>
    obtain ⟨above, hu⟩ := ih
    rcases tick_returns hh hr u with h | ⟨t, -, h⟩ | ⟨-, r, rest, hpop, h, -⟩
    · exact ⟨above, h.trans hu⟩
    · exact ⟨t :: above, by rw [h, hu]; rfl⟩
    · rw [hu] at hpop
      cases above with
      | nil =>
        -- only the return that belongs to the jump takes its statement off
        rw [List.nil_append, List.cons.injEq] at hpop
        exact absurd (h.trans hpop.2.symm) hne
      | cons a above =>
        rw [List.cons_append, List.cons.injEq] at hpop
        exact ⟨above, by rw [h, hpop.2]⟩

/-- A tick that makes the stack what it was before the jump runs a return, and goes on behind the
statement of the jump. -/
theorem tick_goes_back (hh : host.Unobtrusive) (hr : host.LeavesReturns i) {S : List Statement}
    {g : Statement} {above : List Statement} {v : World σ ι}
    (hv : (v.script i).returns = above ++ g :: S)
    (hback : (((tick host i).after v).script i).returns = S) :
    (∃ t, Performs host i .return_ t v) ∧
      (((tick host i).after v).script i).cursor = g.next? := by
  rcases tick_returns hh hr v with h | ⟨t, -, h⟩ | ⟨hperforms, r, rest, hpop, h, hcursor⟩
  · have := congrArg List.length (hback.symm.trans (h.trans hv))
    rw [List.length_append, List.length_cons] at this
    omega
  · have := congrArg List.length (hback.symm.trans (h.trans (congrArg (t :: ·) hv)))
    rw [List.length_cons, List.length_append, List.length_cons] at this
    omega
  · have hrest : rest = S := h.symm.trans hback
    rw [hrest, hv] at hpop
    have hnil : above = [] := by
      have := congrArg List.length hpop
      rw [List.length_append, List.length_cons, List.length_cons] at this
      exact List.length_eq_zero_iff.mp (by omega)
    subst hnil
    rw [List.nil_append, List.cons.injEq] at hpop
    exact ⟨hperforms, hpop.1 ▸ hcursor⟩

/-- **Jumps and returns nest.**  Let a script have its chance at a statement.

* If it jumps to a line that is there, the statement is put on the stack.  However often the script
  jumps and returns afterwards, it stays there until a return makes the stack what it was before the
  jump, and that return goes on behind the statement.
* If it jumps to a line that is not there, or returns with an empty stack, the script just goes on. -/
theorem returns_nest (hh : host.Unobtrusive) (hr : host.LeavesReturns i) {w u : World σ ι}
    {g : Statement} (hchance : chance host i w = .ok .run u)
    (hcursor : (u.script i).cursor = some g) :
    (∀ line more n t, g.Asks i .goto (line :: more) u → u.asInt line = .ok n →
      (u.script i).statementOn? n = some t →
      ∃ w₁, tick host i w = .ok true w₁ ∧ (w₁.script i).cursor = some t ∧
        (w₁.script i).returns = g :: (w.script i).returns ∧
        ∀ v, Away host i (w.script i).returns w₁ v →
          (∃ above, (v.script i).returns = above ++ g :: (w.script i).returns) ∧
          ((((tick host i).after v).script i).returns = (w.script i).returns →
            (∃ t, Performs host i .return_ t v) ∧
              (((tick host i).after v).script i).cursor = g.next?)) ∧
    (∀ line more n, g.Asks i .goto (line :: more) u → u.asInt line = .ok n →
      (u.script i).statementOn? n = none →
      ∃ w₁, tick host i w = .ok g.next?.isSome w₁ ∧ w₁.script i = (u.script i).advance ∧
        (w₁.script i).cursor = g.next? ∧ (w₁.script i).returns = (w.script i).returns) ∧
    (∀ args, g.Asks i .return_ args u → (w.script i).returns = [] →
      ∃ w₁, tick host i w = .ok g.next?.isSome w₁ ∧ w₁.script i = (u.script i).advance ∧
        (w₁.script i).cursor = g.next? ∧ (w₁.script i).returns = []) := by
  have hi : i < u.scripts.size := World.lt_size_of_cursor hcursor
  have hactive : u.active = some i := ends_chance_active hr.active w _ u trivial hchance
  have hreturns : (u.script i).returns = (w.script i).returns := (chance_returns hr).ok hchance
  have goesOn : ∀ {f : Script ι → Script ι}, f (u.script i) = (u.script i).advance →
      (∀ v, Undisturbed u v → executeStatement host i g v = .ok () (v.modifyScript i f)) →
      ∃ w₁, tick host i w = .ok g.next?.isSome w₁ ∧ w₁.script i = (u.script i).advance ∧
        (w₁.script i).cursor = g.next? ∧ (w₁.script i).returns = (w.script i).returns := by
    intro f hf hdoes
    have hadvance : (u.script i).advance.cursor = g.next? := by
      rw [Script.advance_cursor, hcursor]
      rfl
    obtain ⟨w₁, htick, hw₁, -⟩ := tick_of_does hh hi hchance hcursor hdoes
    rw [hf] at htick hw₁
    refine ⟨w₁, ?_, hw₁, ?_, ?_⟩
    · rw [htick, Script.isRunning, hadvance]
    · rw [hw₁, hadvance]
    · rw [hw₁, Script.advance_returns, hreturns]
  refine ⟨?_, ?_, ?_⟩
  · intro line more n t ha hint hline
    let s : Script ι := { u.script i with
      cursor := some t, returns := (u.script i).cursor.toList ++ (u.script i).returns }
    obtain ⟨w₁, htick, hw₁, -⟩ := tick_of_does (f := fun _ => s) hh hi hchance hcursor
      fun v hv => executeStatement_of_goto (ha.congr hv.commands)
        (by rw [asInt_congr hv.scripts, hint]) (hv.active.trans hactive)
        (by rw [hv.script i]; exact Script.gotoLine?_of_statementOn? hline)
    have hstack : (w₁.script i).returns = g :: (w.script i).returns := by
      rw [hw₁, ← hreturns]
      show (u.script i).cursor.toList ++ (u.script i).returns = _
      rw [hcursor]
      rfl
    refine ⟨w₁, htick, by rw [hw₁], hstack, fun v hv => ?_⟩
    obtain ⟨above, habove⟩ := hv.returns hh hr hstack
    exact ⟨⟨above, habove⟩, tick_goes_back hh hr habove⟩
  · intro line more n ha hint hline
    exact goesOn rfl fun v hv => executeStatement_of_goto_nowhere (ha.congr hv.commands)
      (by rw [asInt_congr hv.scripts, hint]) (hv.active.trans hactive)
      (by rw [hv.script i]; exact Script.gotoLine?_of_none hline)
  · intro args ha hempty
    have hsame : (u.script i).returnFromGoto = u.script i :=
      Script.returnFromGoto_of_nil (hreturns.trans hempty)
    rw [← hempty]
    exact goesOn (f := fun s => s.returnFromGoto.advance) (congrArg Script.advance hsame)
      fun v hv => executeStatement_of_return (ha.congr hv.commands) (hv.active.trans hactive)

end

/-- A script that jumps over a line, comes back to it and ends. -/
def thereAndBack : Node where
  kind := .script
  children :=
    [{ kind := .statement, line := 1
       children := [{ kind := .command, lexeme := some "goto" },
         { kind := .integer, lexeme := some "3" }] },
     { kind := .statement, line := 2, children := [{ kind := .stop }] },
     { kind := .statement, line := 3, children := [{ kind := .command, lexeme := some "return" }] }]

/-- A world in which the script is about to jump. -/
def awayWorld : World Unit Unit where
  host := ()
  scripts := #[.start "away" thereAndBack]
  registry :=
    { commands := (Table.empty.insert "return" (.bundled .return_)).insert "goto" (.bundled .goto) }

theorem awayWorld_goto : awayWorld.registry.commands.get? "goto" = some (.bundled .goto) := by
  show (((Table.empty : Table (Handler Bundled.Command Unit)).insert "return"
    (.bundled .return_)).insert "goto" (.bundled .goto)).get? "goto" = _
  rw [Table.get?_insert, if_pos rfl]

theorem awayWorld_return : awayWorld.registry.commands.get? "return" = some (.bundled .return_) := by
  show (((Table.empty : Table (Handler Bundled.Command Unit)).insert "return"
    (.bundled .return_)).insert "goto" (.bundled .goto)).get? "return" = _
  rw [Table.get?_insert, if_neg (by decide), Table.get?_insert, if_pos rfl]

/-- The statements of the script. -/
def awayLine (k : Nat) : Statement where
  load := 0
  site := ⟨thereAndBack.children.getD k default, [(thereAndBack, k)]⟩

/-- The script jumps from line 1 to line 3; the return there makes the stack empty again, and the
script goes on with line 2. -/
theorem returns_nest_away :
    (quietHost.Unobtrusive ∧ quietHost.LeavesReturns (ι := Unit) 0) ∧
      chance quietHost 0 awayWorld = .ok .run { awayWorld with active := some 0 } ∧
      ∃ w₁, tick quietHost 0 awayWorld = .ok true w₁ ∧
        (w₁.script 0).cursor = some (awayLine 2) ∧ (w₁.script 0).returns = [awayLine 0] ∧
        Away quietHost 0 [] w₁ w₁ ∧
        (((tick quietHost 0).after w₁).script 0).returns = [] ∧
        (((tick quietHost 0).after w₁).script 0).cursor = some (awayLine 1) ∧
        (awayLine 1).line = 2 := by
  have hL := sameReturns_lenient (σ := Unit) (ι := Unit) 0
  have hleaves : quietHost.LeavesReturns 0 :=
    ⟨quietHost_keeps hL, fun _ _ _ _ _ => .pure hL _, fun _ => .pure hL _, fun _ _ => rfl⟩
  have hchance : chance quietHost 0 awayWorld = .ok .run { awayWorld with active := some 0 } :=
    chance_of_running quietHost 0 rfl
  have hasks : (awayLine 0).Asks 0 .goto [⟨0, ((awayLine 0).site.children.getD 1 default)⟩]
      { awayWorld with active := some 0 } :=
    ⟨rfl, rfl, _, "goto", _, rfl, awayWorld_goto, rfl⟩
  refine ⟨⟨quietHost_unobtrusive, hleaves⟩, hchance, ?_⟩
  obtain ⟨w₁, htick, hcursor, hreturns, haway⟩ :=
    (returns_nest (g := awayLine 0) quietHost_unobtrusive hleaves hchance rfl).1 _ _ 3 (awayLine 2)
      hasks rfl rfl
  have hempty : (((tick quietHost 0).after w₁).script 0).returns = [] := by
    rw [← after_of_ok htick]
    decide +kernel
  obtain ⟨-, hback⟩ := haway w₁ .start
  exact ⟨w₁, htick, hcursor, hreturns, .start, hempty, (hback hempty).2, rfl⟩

end Cadence
