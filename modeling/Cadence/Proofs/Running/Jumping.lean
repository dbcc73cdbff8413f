/-
  JUMPING — when the end of a choice closes the frame of its own choice.

  The end of a choice closes the innermost frame, whichever statement opened it.  A jump takes the
  frames along as they are; so the frame that is closed may be that of a loop around the choice, and
  then the loop begins again.

  This cannot happen on an EXCURSION, an outing whose jumps stay LEVEL: they lead only to places that
  the same constructs enclose as the place they come from.

  1. **Ends of choices** — on an excursion the frames are those of the enclosing constructs, as they
     are on a trip without jumps; so at the end of a choice the frame on top is that of the choice,
     and it is the one that is closed (`Excursion.closes_own`).

  2. **Jumps** — a jump to a line that the same constructs enclose stays level (`level_of_goto`).
-/
import Cadence.Proofs.Running.Calling

namespace Cadence

open ScriptM

section

variable {σ ι : Type}

/-- On an excursion commands land where the same constructs enclose. -/
abbrev Excursion (host : Host σ ι) (i : Nat) : Bool → World σ ι → Prop :=
  Outing host i (Level host i)

variable {host : Host σ ι} {i : Nat} {T : Tree}

/-! ## Ends of choices -/

/-- A statement ends a choice. -/
def Statement.endsChoice (t : Statement) : Bool := t.head?.any fun head => head.kind = .ifEnd

theorem Statement.endsChoice_iff {t : Statement} :
    t.endsChoice = true ↔ ∃ head, t.head? = some head ∧ head.kind = .ifEnd := by
  rw [endsChoice, Option.any_eq_true]
  simp only [decide_eq_true_eq]

/-- The frame on top is that of the choice that the statement ends; and afterwards it is closed, and
no other. -/
def ClosesOwn (i : Nat) (t : Statement) (u w : World σ ι) : Prop :=
  ∃ a, (u.script i).frames.top.start = some a ∧ (u.script i).choiceEnd? a = some t ∧
    (w.script i).frames.starts = (u.script i).frames.starts.tail

/-- At the end of a choice the start of the choice is what encloses it innermost. -/
theorem WellNested.exists_choice (hw : WellNested T.kinds) {k : Nat} {t : Statement}
    (ht : T.statement? k = some t) (he : t.endsChoice = true) :
    ∃ o a, enclosing T.kinds k = o :: enclosing T.kinds o ∧ T.statement? o = some a ∧
      (Links.ofKinds T.kinds).choiceEnd? o = some k := by
  obtain ⟨head, hh, hkind⟩ := Statement.endsChoice_iff.mp he
  have hcloses : holds Family.choices.closes T.kinds k = true := by
    rw [Tree.holds_of_head? ht hh, hkind]
    rfl
  obtain ⟨o, ho, hopens⟩ :=
    WellNested.innermostOf_iff.mp (hw.choices k (Tree.lt_of_statement? ht) hcloses)
  obtain ⟨a, ha⟩ := Tree.exists_statement? (T := T) (lt_length_of_holds hopens)
  exact ⟨o, a, Family.openAt_of_head? ho, ha, Links.choiceEnd?_eq_some_iff.mpr
    ⟨hcloses, hw.head?_openAt Family.choices_part ho hopens⟩⟩

/-- **A step at the end of a choice closes the frame of the choice**, where the frames are those of
the enclosing constructs. -/
theorem closesOwn_of_step (hq : host.Keeps (Still i)) (hw : WellNested T.kinds) {k : Nat}
    {t : Statement} {u w : World σ ι} {b : Bool} (ht : T.statement? k = some t)
    (he : t.endsChoice = true)
    (hu : With i (Framed T (enclosing T.kinds k) (some t) false) u)
    (h : step host i u = .ok b w) : ClosesOwn i t u w := by
  obtain ⟨o, a, henclosing, ha, hend⟩ := hw.exists_choice ht he
  rw [henclosing] at hu
  have hstarts : (u.script i).frames.starts = some a :: (enclosing T.kinds o).map T.statement? ++
      [none] := by
    rw [hu.2.starts, List.map_cons, ha]
  refine ⟨a, (List.cons.inj hstarts).1, ?_, ?_⟩
  · unfold Script.choiceEnd?
    rw [hu.2.has.linked? ha, hu.2.links, hend]
    exact ht
  · obtain ⟨e, v, r, v', -, hv, hnext, hv'⟩ := step_ok hq hu.2.cursor h
    rw [executeNext_of_cursor host i (hv.cursor.trans hu.2.cursor)] at hnext
    obtain ⟨_, v₁, hexecute, hrest⟩ := bind_ok hnext
    cases hrest
    obtain ⟨head, hh, hhead⟩ := executeStatement_ok hexecute
    have hkind : head.kind = .ifEnd := by
      obtain ⟨head', hh', hkind⟩ := Statement.endsChoice_iff.mp he
      cases hh.symm.trans hh'
      exact hkind
    unfold executeHead at hhead
    rw [hkind] at hhead
    have closes : Ends (With i (Framed T (o :: enclosing T.kinds o) (some t) false)) (do
        modifyScript i Script.popFrame
        advance i : ScriptM σ ι Unit)
        fun _ => With i (Framed T (enclosing T.kinds o) t.next? false) :=
      .bind ends_popFrame fun _ => .modifyScript fun _ h => h.advance
    have hclosed := closes v _ _ ⟨hv.size hu.1, hu.2.still hv⟩ hhead
    rw [hv'.starts, hclosed.2.starts, hstarts]
    rfl

/-- **On an excursion each end of a choice closes the frame of its own choice.**  Let a script have
its chance at a statement.

* It is enclosed by the constructs whose frames are there; in particular a loop header has its own
  frame on top exactly when the script came back to it.
* If it is the end of a choice and the tick goes well, the tick closes the frame that was opened by
  the start of this choice, and no other. -/
theorem Excursion.closes_own (hq : host.Keeps (Still i))
    (hc : ∀ t word args quiet force, Keeps (SameChain i) (host.command t word args quiet force))
    (hk : ∀ t, Keeps (SamePlace i) (host.callback t)) {back : Bool} {w u : World σ ι}
    {t : Statement} (h : Excursion host i back w) (hchance : chance host i w = .ok .run u)
    (hcursor : (u.script i).cursor = some t) :
    (∃ k, Enclosed (u.script i) back t k) ∧
      (t.endsChoice = true → ∀ b w', Cadence.tick host i w = .ok b w' → ClosesOwn i t u w') := by
  obtain ⟨T, hn, hw⟩ := h.stood hq hc hk fun _ => id
  obtain ⟨hsize, k, c, waits, hst⟩ := ends_chance hk w _ u hw hchance
  obtain rfl : c = some t := hst.framed.cursor.symm.trans hcursor
  have ht : T.statement? k = some t := by
    rcases hst.cursor with hnone | ht
    · exact absurd hnone (by simp)
    · exact ht.symm
  refine ⟨⟨k, hst.enclosed ht⟩, fun he b w' htick => ?_⟩
  rw [tick_of_chance host hchance] at htick
  obtain ⟨head, hh, hkind⟩ := Statement.endsChoice_iff.mp he
  have hcalm := hst.calm (by rw [Statement.isCommand_of_head? hh, hkind]; rfl)
  rw [hst.headers_eq (by rw [Tree.holds_of_head? ht hh, hkind]; rfl)] at hcalm
  exact closesOwn_of_step hq hn ht he ⟨hsize, hcalm⟩ htick

/-! ## Jumps -/

/-- **A jump to a line that the same constructs enclose stays level.** -/
theorem level_of_goto (hh : host.Unobtrusive) {u : World σ ι} {g s : Statement} {line : Argument}
    {more : List Argument} {n : Int} {k m : Nat} (hcursor : (u.script i).cursor = some g)
    (hruns : (u.script i).activity = .running) (hactive : u.active = some i)
    (ha : g.Asks i .goto (line :: more) u) (hint : u.asInt line = .ok n)
    (hline : (u.script i).statementOn? n = some s)
    (hg : (u.script i).tree.statement? k = some g) (hs : (u.script i).tree.statement? m = some s)
    (he : enclosing (u.script i).tree.kinds m = enclosing (u.script i).tree.kinds k) :
    Level host i u := by
  intro t ht _ e v hbefore b v' hrun
  obtain rfl : g = t := Option.some.inj (hcursor.symm.trans ht)
  have hv : Undisturbed u v := by
    have hpasses : Passes (do
        emit host (.beforeStatement i g)
        logStep i g : ScriptM σ ι LogEntry) :=
      .bind (passes_emit hh _) fun _ => passes_logStep i g
    obtain ⟨_, _, hok, hv⟩ := hpasses u
    rw [hok] at hbefore
    cases hbefore
    exact hv
  have hgoto := Script.gotoLine?_of_statementOn? hline
  rw [executeCommand_of_goto (ha.congr hv.commands) (by rw [asInt_congr hv.scripts, hint])
    (hv.active.trans hactive) (by rw [hv.script i]; exact hgoto)] at hrun
  cases hrun
  have hi : i < v.scripts.size := by
    rw [hv.scripts]
    exact World.lt_size_of_cursor hcursor
  right
  rw [World.script_modifyScript_self _ hi, hv.script i]
  refine ⟨⟨k, m, ?_, Nat.le_of_lt (Tree.lt_of_statement? hs), he, .inr hs.symm⟩, fun _ => ?_⟩
  · rw [hg, hcursor]
  · show (u.script i).activity ≠ .timingOut
    rw [hruns]
    decide

/-- Without a command there is no jump. -/
theorem level_of_not_isCommand {u : World σ ι}
    (h : (u.script i).cursor.any Statement.isCommand = false) : Level host i u := by
  intro t ht hcommand
  rw [ht, Option.any_some, hcommand] at h
  exact absurd h (by simp)

end

/-- A world after a number of ticks. -/
def ticked (w : World Unit Unit) : Nat → World Unit Unit
  | 0 => w
  | m + 1 => (tick quietHost 0).after (ticked w m)

/-- A loop of one pass, in which a jump leads over a line to a choice. -/
def shortcutRoot : Node where
  kind := .script
  children :=
    [headerLine "1", jumpLine "4", wordLine 3 .stop none, choiceLine 4, wordLine 5 .ifEnd none,
     wordLine 6 .forEnd none]

/-- A tick that goes well leads to the next world. -/
theorem tick_ticked {w : World Unit Unit} {m : Nat}
    (hok : (match tick quietHost 0 (ticked w m) with
      | .ok _ _ => true
      | .error _ _ => false) = true) :
    ∃ b, tick quietHost 0 (ticked w m) = .ok b (ticked w (m + 1)) := by
  cases htick : tick quietHost 0 (ticked w m) with
  | error fault u =>
    rw [htick] at hok
    exact absurd hok (by simp)
  | ok b u => exact ⟨b, by rw [ticked, after_of_ok htick]⟩

/-- A tick of a running script that goes well leads further on the excursion. -/
theorem excursion_ticked {w : World Unit Unit} {back : Bool} {m : Nat}
    (h : Excursion quietHost 0 back (ticked w m))
    (hruns : ((ticked w m).script 0).activity = .running)
    (hlevel : Level quietHost 0 { ticked w m with active := some 0 })
    (hok : (match tick quietHost 0 (ticked w m) with
      | .ok _ _ => true
      | .error _ _ => false) = true) :
    Excursion quietHost 0 (((ticked w m).script 0).cursor.any Statement.returns)
      (ticked w (m + 1)) := by
  obtain ⟨b, htick⟩ := tick_ticked hok
  exact Outing.tick (u := { ticked w m with active := some 0 }) h
    (chance_of_running quietHost 0 hruns) hlevel htick

theorem closes_own_shortcut :
    ∃ t, ((ticked (loopingWorld shortcutRoot) 3).script 0).cursor = some t ∧
      t.endsChoice = true ∧ Excursion quietHost 0 false (ticked (loopingWorld shortcutRoot) 3) ∧
      ClosesOwn 0 t { ticked (loopingWorld shortcutRoot) 3 with active := some 0 }
        (ticked (loopingWorld shortcutRoot) 4) := by
  have h₀ : Excursion quietHost 0 false (ticked (loopingWorld shortcutRoot) 0) :=
    @Outing.start _ _ quietHost 0 _ _ "looping" shortcutRoot (by decide) rfl (by decide)
  have h₁ := excursion_ticked h₀ rfl (level_of_not_isCommand rfl) (by decide +kernel)
  have h₂ := excursion_ticked h₁ (by decide +kernel)
    (level_of_goto (g := lineOf shortcutRoot 1) (s := lineOf shortcutRoot 3) (k := 1) (m := 3)
      (n := 4) quietHost_unobtrusive rfl rfl rfl
      ⟨rfl, rfl, _, "goto", _, rfl, awayWorld_goto, rfl⟩ rfl rfl rfl rfl (by decide +kernel))
    (by decide +kernel)
  have h₃ := excursion_ticked h₂ (by decide +kernel)
    (level_of_not_isCommand (by decide +kernel)) (by decide +kernel)
  have hback : ((ticked (loopingWorld shortcutRoot) 2).script 0).cursor.any Statement.returns =
      false := by decide +kernel
  rw [hback] at h₃
  have hends : ((ticked (loopingWorld shortcutRoot) 3).script 0).cursor.any
      Statement.endsChoice = true := by decide +kernel
  obtain ⟨t, hcursor, hends⟩ := (Option.any_eq_true ..).mp hends
  obtain ⟨b, htick⟩ := tick_ticked (w := loopingWorld shortcutRoot) (m := 3) (by decide +kernel)
  obtain ⟨-, hcloses⟩ := Excursion.closes_own (quietHost_keeps (still_lenient 0))
    (fun _ _ _ _ _ => .pure (sameChain_lenient 0).toTolerant _)
    (fun _ => .pure (samePlace_lenient 0).toTolerant _) h₃
    (chance_of_running quietHost 0 (by decide +kernel)) hcursor
  exact ⟨t, hcursor, hends, h₃, hcloses hends b _ htick⟩

/-- A loop of one pass, in which a jump leads into the middle of a choice. -/
def intrusionRoot : Node where
  kind := .script
  children :=
    [headerLine "1", jumpLine "4", choiceLine 3, wordLine 4 .command "clearjournal",
     wordLine 5 .ifEnd none, wordLine 6 .forEnd none, wordLine 7 .stop none]

/-- A world in which the loop begins. -/
def intrusionWorld : World Unit Unit where
  host := ()
  scripts := #[.start "intrusion" intrusionRoot]
  registry :=
    { commands :=
        (Table.empty.insert "clearjournal" (.bundled .clearJournal)).insert "goto" (.bundled .goto) }

/-- **The end of a choice that was jumped into closes the frame of the loop around it.**  So the
header begins again, and the body of a loop of one pass is entered once more. -/
theorem begins_again_of_intrusion :
    (List.range 8).map (fun m => ((ticked intrusionWorld m).script 0).currentLine) =
        [1, 2, 4, 5, 6, 1, 2, 4] ∧
      (List.range 8).map (fun m => ((ticked intrusionWorld m).script 0).frames.depth) =
        [0, 1, 1, 1, 0, 0, 1, 1] ∧
      ((ticked intrusionWorld 3).script 0).frames.top.start.map Statement.line = some 1 := by
  decide +kernel

end Cadence
