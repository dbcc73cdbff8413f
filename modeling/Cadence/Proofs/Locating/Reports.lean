/-
  REPORTS — the error of a tick is reported at a statement.

  1. **Statements** — one lemma for each kind of statement.  What fails inside of it is traced,
     since its tokens are inside of it and what its variables hold is sound.
  2. **Ticks** — what stands around a statement does not fail, and what leaves the statement gets
     its site if it has none.  So a script error that leaves a tick has a site, and that is inside
     a statement but for the one exception (`attains_tick`).
  3. **Histories** — worlds that begin with nothing that could be read stay sound, whatever ticks,
     operations and the host do (`Attested.sound`).
  4. **The headline** (`report_of_tick`) — a report shows a statement, unless a number that was put
     into a list for an object was too large to be read as a signed one.

  The exception does occur: `unlocated_of_large` is a script of five lines whose report shows no
  place.
-/
import Cadence.Proofs.Locating.Words
import Cadence.Proofs.Running.Journey
import Cadence.Proofs.Running.Jumping
import Cadence.World.Traceback

namespace Cadence

open ScriptM

section

variable {σ ι : Type} {host : Host σ ι} {i : Nat} {t : Statement} {head : Site}

/-! ## Statements -/

/-- The head of a statement is inside of it. -/
theorem Statement.Upright.inside_head (ht : t.Upright) (h : t.head? = some head) : head.Inside :=
  ht.inside.firstChild? h

/-- Links lead to statements. -/
theorem Script.Sound.upright_of_linked? {s : Script ι} (h : s.Sound) {u : Statement}
    {link : Nat → Option Nat} (hu : s.linked? t link = some u) : u.Upright :=
  h.upright_of_has (Script.has_of_linked? hu)

theorem Script.Sound.upright_of_mem_branches {s : Script ι} (h : s.Sound) {u : Statement}
    (hu : u ∈ s.branches t) : u.Upright := by
  unfold Script.branches at hu
  split at hu
  · exact absurd hu List.not_mem_nil
  · obtain ⟨k, -, hk⟩ := List.mem_filterMap.mp hu
    exact h.upright_of_has (Script.has_of_statementAt? hk)

theorem locates_advance : Locates (advance i : ScriptM σ ι Unit) :=
  .modifyScript i fun _ hs => hs.advance

theorem locates_moveTo {c : Option Statement} (hc : ∀ u, c = some u → u.Upright) :
    Locates (moveTo i c : ScriptM σ ι Unit) :=
  .modifyScript i fun _ hs => hs.place hc

theorem locates_moveTo_some {u : Statement} (hu : u.Upright) :
    Locates (moveTo i (some u) : ScriptM σ ι Unit) := by
  refine locates_moveTo ?_
  rintro _ ⟨⟩
  exact hu

theorem locates_moveTo_next (ht : t.Upright) : Locates (moveTo i t.next? : ScriptM σ ι Unit) :=
  locates_moveTo fun _ hu => ht.next hu

theorem locates_pushFrame (t : Statement) : Locates (pushFrame i t : ScriptM σ ι Unit) :=
  .modifyScript i fun _ hs => hs.frame (hs.frames.push t)

theorem locates_popFrame : Locates (modifyScript i Script.popFrame : ScriptM σ ι Unit) :=
  .modifyScript i fun _ hs => hs.popFrame

theorem locates_clearTimeout : Locates (modifyScript i Script.clearTimeout : ScriptM σ ι Unit) :=
  .modifyScript i fun _ hs => hs.clearTimeout

/-- A count is no variable. -/
theorem locates_count (f : Frame → Frame) (hf : ∀ g, (f g).vars = g.vars) :
    Locates (modifyScript i (·.mapTop f) : ScriptM σ ι Unit) := by
  refine .modifyScript i fun s hs => hs.frame (hs.frames.mapTop fun g hg => ?_)
  rw [hf]
  exact hg

theorem locates_standsIn (t : Statement) : Locates (standsIn i t : ScriptM σ ι Bool) :=
  .bind (.script i) fun _ _ => .any _

/-! ### Choices -/

theorem locates_enterBranch (hh : host.Tidy) {fallback : Statement} (hfallback : fallback.Upright)
    {branches : List Statement} (hbranches : ∀ u ∈ branches, u.Upright) :
    Locates (enterBranch host i fallback branches) := by
  induction branches with
  | nil => exact locates_moveTo_some hfallback
  | cons branch rest ih =>
    obtain ⟨hbranch, hrest⟩ := List.forall_mem_cons.mp hbranches
    unfold enterBranch
    split
    · exact ih hrest
    · next head hhead =>
      refine .ite (fun _ => locates_moveTo_next hbranch) fun _ => ?_
      refine .bind (locates_evaluateGuard hh i (hbranch.inside_head hhead)) fun b _ => ?_
      exact .ite (fun _ => locates_moveTo_next hbranch) fun _ => ih hrest

theorem locates_executeIf (hh : host.Tidy) (t : Statement) (hin : head.Inside) :
    Locates (executeIf host i t head) := by
  unfold executeIf
  refine .bind (locates_pushFrame t) fun _ _ => ?_
  refine .bind (locates_evaluateGuard hh i hin) fun b _ => ?_
  refine .ite (fun _ => locates_advance) fun _ => .bind (.script i) fun s hs => ?_
  split
  · exact .fail hin _
  · next fallback hfallback =>
    refine .bind locates_clearTimeout fun _ _ => ?_
    exact locates_enterBranch hh (hs.upright_of_linked? hfallback) fun u hu =>
      hs.upright_of_mem_branches hu

theorem locates_skipBranch (t : Statement) (hin : head.Inside) :
    Locates (skipBranch i t head : ScriptM σ ι Unit) := by
  unfold skipBranch
  refine .bind (.script i) fun s hs => ?_
  split
  · exact .fail hin _
  · next fallback hfallback =>
    refine .bind locates_clearTimeout fun _ _ => ?_
    exact locates_moveTo_some (hs.upright_of_linked? hfallback)

/-! ### Loops -/

theorem locates_exitLoop (t : Statement) (hin : head.Inside) :
    Locates (exitLoop i t head : ScriptM σ ι Unit) := by
  unfold exitLoop
  refine .bind (.script i) fun s hs => ?_
  split
  · exact .fail hin _
  · next fallback hfallback =>
    refine .bind locates_popFrame fun _ _ => ?_
    refine .bind (locates_moveTo_some (hs.upright_of_linked? hfallback)) fun _ _ => ?_
    exact locates_advance

theorem locates_executeWhile (hh : host.Tidy) (t : Statement) (hin : head.Inside) :
    Locates (executeWhile host i t head) := by
  have ask : Locates (do
      if ← evaluateGuard host i head then advance i else exitLoop i t head) := by
    refine .bind (locates_evaluateGuard hh i hin) fun b _ => ?_
    exact .ite (fun _ => locates_advance) fun _ => locates_exitLoop t hin
  unfold executeWhile
  refine .bind (locates_standsIn t) fun b _ => .ite (fun _ => ?_) fun _ => ask
  exact .bind (locates_pushFrame t) fun _ _ => ask

theorem locates_countPass : Locates (countPass i : ScriptM σ ι Unit) := by
  unfold countPass
  refine .bind (.script i) fun s _ => ?_
  split
  · exact .throw trivial
  · exact locates_count _ fun _ => rfl

theorem locates_startCount (bound : Option Int) :
    Locates (startCount i bound : ScriptM σ ι Unit) := locates_count _ fun _ => rfl

theorem locates_followCount (t : Statement) (hin : head.Inside) :
    Locates (followCount i t head : ScriptM σ ι Unit) := by
  unfold followCount
  refine .bind (.script i) fun s _ => ?_
  split
  · exact locates_exitLoop t hin
  · exact .ite (fun _ => locates_advance) fun _ => locates_exitLoop t hin

theorem locates_executeFor (t : Statement) (hin : head.Inside) :
    Locates (executeFor i t head : ScriptM σ ι Unit) := by
  unfold executeFor
  split
  · exact .fail hin _
  · next bound hbound =>
    have hboundIn : bound.Inside := hin.firstChild? hbound
    refine .ite (fun _ => .fail hboundIn _) fun _ => ?_
    refine .bind (locates_standsIn t) fun b _ => .ite (fun _ => ?_) fun _ => ?_
    · refine .bind (locates_pushFrame t) fun _ _ => ?_
      have hread : Locates (reading fun w : World σ ι => w.asUInt ⟨i, bound⟩) :=
        .reading (fun w hw => hw.traces_asUInt (.inside hboundIn)) fun _ _ _ _ => trivial
      refine .bind hread fun n _ => .bind (locates_startCount _) fun _ _ => ?_
      exact locates_followCount t hin
    · exact .bind locates_countPass fun _ _ => locates_followCount t hin

/-- What a list holds is sound; that there is none is told at its name. -/
theorem finds_listElement {list : Site} (hlist : list.Inside) (listName : String) (index : Nat) :
    Finds (fun o => ∀ a, o = some a → Argument.Sound a)
      (listElement list listName index : ScriptM σ ι (Option Argument)) := by
  have hread : Finds (fun o => ∀ a, o = some a → Argument.Sound a)
      (reading fun w : World σ ι => w.listValue listName index) := by
    refine .reading (fun w _ => traces_listValue w _ _) fun w o hw ho a ha => ?_
    subst ha
    exact hw.listValue ho
  refine hread.mapFault fun fault hfault => ?_
  cases fault with
  | trouble why => trivial
  | script error =>
    obtain ⟨site, cause, step⟩ := error
    cases site with
    | none => exact (Fault.traced_at hlist cause)
    | some s => exact hfault

theorem locates_followElement (t : Statement) (hin : head.Inside) (name : String) {list : Site}
    (hlist : list.Inside) (listName : String) :
    Locates (followElement i t head name list listName : ScriptM σ ι Unit) := by
  unfold followElement
  refine .bind (.script i) fun s _ => .bind (finds_listElement hlist listName _) fun o ho => ?_
  cases o with
  | some a =>
    refine .bind (.modifyScript i fun s hs => hs.setVar (ho a rfl) name) fun _ _ => ?_
    exact locates_advance
  | none =>
    refine .bind (.modifyScript i fun s hs => hs.clearVar name) fun _ _ => ?_
    exact locates_exitLoop t hin

theorem locates_executeForEach (t : Statement) (hin : head.Inside) :
    Locates (executeForEach i t head : ScriptM σ ι Unit) := by
  unfold executeForEach
  split
  · next v name list listName more hparts =>
    -- a list that does not exist is told at its name, which is a token of the header
    have hlist : list.Inside := by
      have hmem : (list, some listName) ∈ head.children.map fun c => (c, c.lexeme) := by
        rw [hparts]
        exact List.mem_cons_of_mem _ List.mem_cons_self
      obtain ⟨c, hc, heq⟩ := List.mem_map.mp hmem
      obtain ⟨rfl, -⟩ := Prod.mk.inj heq
      exact hin.children hc
    have follow : Locates (followElement i t head name list listName : ScriptM σ ι Unit) :=
      locates_followElement t hin name hlist listName
    refine .bind (locates_standsIn t) fun b _ => .ite (fun _ => ?_) fun _ => ?_
    · refine .bind (locates_pushFrame t) fun _ _ => ?_
      exact .bind (locates_startCount none) fun _ _ => follow
    · exact .bind locates_countPass fun _ _ => follow
  · exact .fail hin _

theorem locates_executeLoopEnd (t : Statement) (hin : head.Inside) :
    Locates (executeLoopEnd i t head : ScriptM σ ι Unit) := by
  unfold executeLoopEnd
  refine .bind (.script i) fun s hs => ?_
  split
  · exact .fail hin _
  · next header hheader => exact locates_moveTo_some (hs.upright_of_linked? hheader)

theorem locates_unwind (header : Statement) (inclusive : Bool) :
    Locates (modifyScript i fun s => { s with frames := s.frames.unwind header inclusive } :
      ScriptM σ ι Unit) :=
  .modifyScript i fun _ hs => hs.frame (hs.frames.unwind header inclusive)

theorem locates_executeBreak (t : Statement) (hin : head.Inside) :
    Locates (executeBreak i t head : ScriptM σ ι Unit) := by
  unfold executeBreak
  refine .bind (.script i) fun s hs => ?_
  split
  · next header fallback _ hfallback =>
    refine .bind (locates_unwind header true) fun _ _ => ?_
    refine .bind (locates_moveTo_some (hs.upright_of_linked? hfallback)) fun _ _ => ?_
    exact locates_advance
  · exact .fail hin _

theorem locates_executeContinue (t : Statement) (hin : head.Inside) :
    Locates (executeContinue i t head : ScriptM σ ι Unit) := by
  unfold executeContinue
  refine .bind (.script i) fun s hs => ?_
  split
  · exact .fail hin _
  · next header hheader =>
    refine .bind (locates_unwind header false) fun _ _ => ?_
    exact locates_moveTo_some (hs.upright_of_linked? hheader)

/-! ### The rest -/

theorem locates_executeReplay (ht : t.Upright) :
    Locates (executeReplay i t : ScriptM σ ι Unit) :=
  .modifyScript i fun _ hs => (hs.frame hs.frames.bottom).place fun _ hu => ht.first hu

theorem locates_callCommand (hh : host.Tidy) (h : Handler Bundled.Command ι) (word : String)
    {args : List Argument} (hargs : ∀ a ∈ args, Argument.Sound a) (marks : Marks) :
    Locates (callCommand host h word args marks) := by
  cases h with
  | bundled c => exact locates_runCommand hh hargs c marks.force
  | host token => exact .bind (hh.command token word args _ _ hargs) fun v _ => .any _

theorem locates_executeCommand (hh : host.Tidy) {tokens : List Site}
    (ht : ∀ s ∈ tokens, s.Inside) : Locates (executeCommand host i tokens) := by
  have hmarks : ∀ s ∈ (takeMarks {} tokens).2, s.Inside := inside_of_mem_takeMarks ht
  unfold executeCommand
  simp only
  split
  · exact .fail_head hmarks _
  · next s word rest hk =>
    rw [tokens_of_keyword? hk] at hmarks
    obtain ⟨hin, hrest⟩ := List.forall_mem_cons.mp hmarks
    refine .bind .get fun w _ => ?_
    split
    · exact .fail hin _
    · next h _ =>
      split
      · next extra more hextra =>
        have hmem : extra ∈ (takeArguments i rest).2 := by
          rw [hextra]
          exact List.mem_cons_self
        exact .fail (inside_of_mem_takeArguments hrest hmem) _
      · exact locates_callCommand hh h word (fun a ha => sound_of_mem_takeArguments hrest ha) _

theorem locates_executeHead (hh : host.Tidy) (ht : t.Upright) (hin : head.Inside) :
    Locates (executeHead host i t head) := by
  have command : Locates (do if ← executeCommand host i t.site.children then advance i) := by
    refine .bind (locates_executeCommand hh fun s hs => ht.inside.children hs) fun b _ => ?_
    exact .ite (fun _ => locates_advance) fun _ => .any _
  unfold executeHead
  split
  case h_1 => exact locates_executeIf hh t hin
  case h_2 => exact locates_skipBranch t hin
  case h_3 => exact locates_skipBranch t hin
  case h_4 => exact .bind locates_popFrame fun _ _ => locates_advance
  case h_5 => exact locates_executeWhile hh t hin
  case h_6 => exact locates_executeFor t hin
  case h_7 => exact locates_executeForEach t hin
  case h_8 => exact locates_executeLoopEnd t hin
  case h_9 => exact locates_executeLoopEnd t hin
  case h_10 => exact locates_executeBreak t hin
  case h_11 => exact locates_executeContinue t hin
  case h_12 => exact locates_moveTo fun _ hu => nomatch hu
  case h_13 => exact locates_executeReplay ht
  case h_18 => exact .fail hin _
  all_goals exact command

/-- **What fails inside a statement is traced.** -/
theorem locates_executeStatement (hh : host.Tidy) (ht : t.Upright) :
    Locates (executeStatement host i t) := by
  unfold executeStatement
  refine .ite (fun _ => .fail ht.inside _) fun _ => ?_
  split
  · exact .fail ht.inside _
  · next head hhead => exact locates_executeHead hh ht (ht.inside_head hhead)

theorem locates_executeNext (hh : host.Tidy) (i : Nat) : Locates (executeNext host i) := by
  unfold executeNext
  refine .bind (.script i) fun s hs => ?_
  split
  · exact .any _
  · next t ht =>
    refine .bind (locates_executeStatement hh (hs.cursor t ht)) fun _ _ => ?_
    exact .bind (.script i) fun s _ => .any _

/-! ## Ticks -/

/-- The site of a script error is inside a statement; or it is the exception. -/
def Fault.Placed : Fault → Prop
  | .trouble _ => True
  | .script e => (∃ s, e.site = some s ∧ s.Inside) ∨ e.Overgrown

/-- The error of a statement has a site: its own if it has one, else that of the statement. -/
theorem Fault.Traced.placed_ofStep {fault : Fault} (h : fault.Traced) (ht : t.site.Inside)
    (step : Nat) : (Fault.script (fault.ofStep t step)).Placed := by
  cases fault with
  | trouble why => exact .inl ⟨t.site, rfl, ht⟩
  | script error =>
    obtain ⟨site, cause, number⟩ := error
    cases site with
    | none => exact .inl ⟨t.site, rfl, ht⟩
    | some s =>
      rcases h with hin | ⟨n, line, hlow, hhigh, hsite, hcause⟩
      · exact .inl ⟨s, rfl, hin s rfl⟩
      · exact .inr ⟨n, line, hlow, hhigh, hsite, hcause⟩

section

variable (hh : host.Tidy)
include hh

theorem settles_notifyFrom (e : Event) (calls position : Nat) :
    Settles (notifyFrom host e calls position) := by
  induction calls generalizing position with
  | zero => exact .any _
  | succ calls ih =>
    unfold notifyFrom
    refine .bind .get fun w _ => ?_
    split
    · exact .any _
    · exact .bind (hh.listener _ e) fun _ _ => ih (position + 1)

theorem settles_emit (e : Event) : Settles (emit host e) := by
  unfold emit
  refine .bind .get fun w _ => ?_
  exact (settles_notifyFrom hh e _ 0).mapFault fun _ h => h.elim

theorem settles_applyRulesFrom (c : StepContext) (calls position : Nat) :
    Settles (applyRulesFrom host c calls position) := by
  induction calls generalizing position with
  | zero => exact .any _
  | succ calls ih =>
    unfold applyRulesFrom
    refine .bind .get fun w _ => ?_
    split
    · exact .any _
    · refine .ite (fun _ => ?_) fun _ => ih (position + 1)
      exact .bind (hh.rule _ c) fun _ _ => ih (position + 1)

theorem settles_applyRules (t : Statement) (c : StepContext) : Settles (applyRules host t c) := by
  unfold applyRules
  refine .bind .get fun w _ => ?_
  exact (settles_applyRulesFrom hh c _ 0).mapFault fun _ h => h.elim

theorem settles_afterStep (i : Nat) (t : Statement) (e : LogEntry) :
    Settles (afterStep host i t e) := by
  unfold afterStep
  refine .bind (.script i) fun s _ => ?_
  exact .bind (settles_applyRules hh t _) fun _ _ => settles_emit hh _

omit hh in
theorem settles_logStep (i : Nat) (t : Statement) : Settles (logStep i t : ScriptM σ ι LogEntry) :=
  fun _ hw => ⟨⟨hw.scripts, hw.lists, hw.aliases⟩, trivial⟩

theorem settles_finish (i : Nat) : Settles (finish host i) := by
  unfold finish
  refine .bind (.modify fun w hw => ⟨hw.scripts, hw.lists, hw.aliases⟩) fun _ _ => ?_
  exact settles_emit hh _

theorem attains_stepStatement (ht : t.Upright) :
    Attains (fun _ => True) Fault.Placed (stepStatement host i t) := by
  unfold stepStatement
  refine .bind (.of_settles (settles_emit hh _)) fun _ _ => ?_
  refine .bind (.of_settles (settles_logStep i t)) fun e _ => ?_
  refine .bind (.attempt (locates_executeNext hh i)) fun r hr => ?_
  cases r with
  | error fault =>
    -- the listeners return, so it is the statement's own error that leaves
    refine .bind (.of_settles (settles_emit hh _)) fun _ _ => ?_
    exact .throw (Fault.Traced.placed_ofStep hr ht.inside e.index)
  | ok alive =>
    refine .bind (.of_settles (settles_afterStep hh i t e)) fun _ _ => ?_
    exact .ite (fun _ => .bind (.of_settles (settles_finish hh i)) fun _ _ => .any _)
      fun _ => .any _

theorem attains_step (i : Nat) : Attains (fun _ => True) Fault.Placed (step host i) := by
  unfold step
  refine .bind (.script i) fun s hs => ?_
  split
  · next t ht => exact attains_stepStatement hh (hs.cursor t ht)
  · exact .bind (.of_settles (settles_finish hh i)) fun _ _ => .any _

omit hh in
theorem attains_deadlineOf (i : Nat) :
    Attains (fun _ => True) Fault.Placed (deadlineOf i : ScriptM σ ι Float) := by
  unfold deadlineOf
  refine .bind (.script i) fun s _ => ?_
  split
  · exact .any _
  · exact .throw trivial

theorem attains_expire (i : Nat) : Attains (fun _ => True) Fault.Placed (expire host i) := by
  -- a callback may have gone on or not, and may be missing: what follows is the same
  have decide_ : Attains (fun _ => True) Fault.Placed (do
      if (← script i).activity = .running then step host i
      else
        finish host i
        return false) := by
    refine .bind (.script i) fun s _ => .ite (fun _ => attains_step hh i) fun _ => ?_
    exact .bind (.of_settles (settles_finish hh i)) fun _ _ => .any _
  unfold expire
  refine .bind (.script i) fun s _ => ?_
  refine .bind (.modifyScript i fun s hs => ⟨hs.tree, hs.cursor, hs.returns, hs.frames⟩)
    fun _ _ => ?_
  cases s.callback with
  | none => exact decide_
  | some c =>
    have asked : Settles (ask host c) := by
      cases c with
      | giveUp => exact .any _
      | host token => exact .bind (hh.callback token) fun _ _ => .any _
    refine .bind (.of_settles asked) fun b _ => .ite (fun _ => ?_) fun _ => decide_
    exact .bind (.modifyScript i fun s hs => hs.advance) fun _ _ => decide_

/-- **A script error that leaves a tick is placed**, and the world stays sound. -/
theorem attains_tick (i : Nat) : Attains (fun _ => True) Fault.Placed (tick host i) := by
  unfold tick
  refine .bind (.modify fun w hw => ⟨hw.scripts, hw.lists, hw.aliases⟩) fun _ _ => ?_
  refine .bind (.script i) fun s _ => ?_
  split
  · exact attains_step hh i
  · refine .bind .get fun w _ => .bind (attains_deadlineOf i) fun d _ => ?_
    refine .ite (fun _ => .any _) fun _ => ?_
    refine .bind (.modifyScript i fun s hs => hs.suspends Script.suspends_unpause) fun _ _ => ?_
    exact attains_step hh i
  · refine .bind (attains_deadlineOf i) fun d _ => .bind .get fun w _ => ?_
    exact .ite (fun _ => attains_expire hh i) fun _ => attains_step hh i

end

/-! ## Histories -/

/-- What is asked of the active script. -/
theorem locates_helper (h : Helper ι) : Locates (h.perform : ScriptM σ ι Unit) := by
  have note : ∀ f : Script ι → Script ι, (∀ s : Script ι, (f s).course = s.course) →
      Locates (modify fun w => w.modifyActive f : ScriptM σ ι Unit) :=
    fun f hf => .modify fun w hw => hw.modifyActive fun s hs => hs.noted (hf s)
  cases h with
  | goto line => exact .bind (locates_gotoLine line) fun _ _ => .any _
  | comeBack => exact .modify fun w hw => hw.modifyActive fun _ hs => hs.returnFromGoto
  | ignore v =>
    refine note _ fun s => ?_
    split
    · rfl
    · rfl
  | clearIgnored => exact note _ fun _ => rfl
  | addEntry e => exact note _ fun _ => rfl
  | clearJournal => exact note _ fun _ => rfl
  | requestTarget requested => exact note _ fun _ => rfl
  | pause d => exact locates_pause d
  | unpause =>
    exact locates_onActive fun i => .modifyScript i fun _ hs => hs.suspends Script.suspends_unpause
  | timeout d callback => exact locates_timeout d callback
  | clearTimeout => exact locates_onActive fun i => locates_clearTimeout
  | reset =>
    refine .modify fun w hw => ?_
    have h := hw.modifyActive fun _ hs => hs.clearTimeout
    exact ⟨h.scripts, h.lists, h.aliases⟩
  | stop =>
    refine .modify fun w hw => ?_
    have h := hw.modifyActive fun _ hs => hs.release
    exact ⟨h.scripts, h.lists, h.aliases⟩

/-- What moves cursors and loads trees of statements. -/
theorem locates_control (o : Control ι) (ho : ∀ root, o.root? = some root → root.OfStatements) :
    Locates (o.perform : ScriptM σ ι Unit) := by
  cases o with
  | goto i line => exact .bind (locates_gotoScript i line) fun _ _ => .any _
  | comeBack i => exact .modifyScript i fun _ hs => hs.returnFromGoto
  | advance i => exact .modifyScript i fun _ hs => hs.advance
  | reset i => exact .modifyScript i fun _ hs => hs.reset
  | replace i root => exact .modifyScript i fun s _ => .replace s (ho root rfl)
  | create name root =>
    refine .modify fun w hw => ⟨fun j => ?_, hw.lists, hw.aliases⟩
    rw [World.script_push]
    split
    · exact .start name (ho root rfl)
    · exact hw.scripts j
  | active h => exact locates_helper h

/-- **The worlds in which every token is attested**: they begin with nothing that could be read, and
ticks, operations and the host lead from one to the next. -/
inductive Attested : World σ ι → Prop where
  /-- There are no scripts, no lists and no aliases. -/
  | start {w : World σ ι} (scripts : w.scripts = #[]) (lists : w.lists = .empty)
      (aliases : w.aliases = .empty) : Attested w
  /-- A script gets its chance, and fails or not. -/
  | tick {w : World σ ι} {host : Host σ ι} (i : Nat) (tidy : host.Tidy) (before : Attested w) :
      Attested ((tick host i).after w)
  /-- A cursor is moved, or a tree of statements is loaded. -/
  | control {w : World σ ι} (o : Control ι) (before : Attested w)
      (root : ∀ root, o.root? = some root → root.OfStatements) : Attested (o.perform.after w)
  /-- The host does anything else: it may bind sound arguments, put them into lists, and give names
  to objects. -/
  | aside {w v : World σ ι} (before : Attested w) (same : ∀ i, Same Script.control i w v)
      (frames : ∀ i, (v.script i).frames.Sound)
      (lists : v.lists.All fun items => ∀ a ∈ items, a.Sound)
      (aliases : v.aliases.All Value.IsObject) : Attested v

/-- All of it keeps the invariant. -/
theorem Attested.sound {w : World σ ι} (h : Attested w) : w.Sound := by
  induction h with
  | @start w scripts lists aliases =>
    refine ⟨fun j => ?_, ?_, ?_⟩
    · have hj : w.script j = default := by
        rw [World.script, scripts]
        rfl
      rw [hj]
      exact .default
    · rw [lists]
      exact .empty
    · rw [aliases]
      exact .empty
  | tick i tidy _ ih => exact (attains_tick tidy i).after ih
  | control o _ root ih => exact (locates_control o root).after ih
  | @aside w v _ same frames lists aliases ih =>
    refine ⟨fun j => ?_, lists, aliases⟩
    have hj := ih.scripts j
    have hcontrol := same j
    have hroot := Script.root_of_tree (Script.tree_of_control hcontrol)
    simp only [Same, Script.control, Prod.mk.injEq] at hcontrol
    obtain ⟨-, -, hcursor, hreturns, -⟩ := hcontrol
    refine ⟨?_, ?_, ?_, frames j⟩
    · rw [hroot]
      exact hj.tree
    · rw [hcursor]
      exact hj.cursor
    · rw [hreturns]
      exact hj.returns

/-! ## Reports -/

/-- A report begins with the place of the error. -/
theorem tracebackLines_eq (w : World σ ι) (error : ScriptError) (verbose : Bool) (j : Option Nat) :
    ∃ more, w.tracebackLines error verbose j = "Traceback (most recent call last):" ::
      (match World.failing? error with
        | some s => ["  Script \"" ++ w.reportedName j ++ "\", line " ++ intText s.line,
            "    " ++ s.node.render]
        | none => ["  <unknown location> in " ++ w.reportedName j]) ++ more :=
  ⟨_, by unfold World.tracebackLines; simp only [List.append_assoc]; rfl⟩

/-- The exception is at no statement: its token has none above it. -/
theorem ScriptError.Overgrown.failing? {error : ScriptError} (h : error.Overgrown) :
    World.failing? error = none := by
  obtain ⟨n, line, -, -, hsite, -⟩ := h
  unfold World.failing?
  rw [hsite]
  rfl

/-- **The error of a tick is reported at a statement, but for one exception.**  In an attested world
a script error leaves a tick of a tidy host.  Then the report shows a statement and its line; or a
number that was put into a list for an object was too large to be read as a signed one, and then the
report shows no place at all. -/
theorem report_of_tick (hh : host.Tidy) {w w' : World σ ι} (h : Attested w) {error : ScriptError}
    (herror : tick host i w = .error (.script error) w') :
    (¬ error.Overgrown ∧ ∃ s, World.failing? error = some s ∧
      ∀ (v : World σ ι) (verbose : Bool) (j : Option Nat), ∃ more,
        v.tracebackLines error verbose j = "Traceback (most recent call last):" ::
          ("  Script \"" ++ v.reportedName j ++ "\", line " ++ intText s.line) ::
          ("    " ++ s.node.render) :: more) ∨
    (error.Overgrown ∧ World.failing? error = none ∧
      ∀ (v : World σ ι) (verbose : Bool) (j : Option Nat), ∃ more,
        v.tracebackLines error verbose j = "Traceback (most recent call last):" ::
          ("  <unknown location> in " ++ v.reportedName j) :: more) := by
  have hplaced : (Fault.script error).Placed := (attains_tick hh i).error h.sound herror
  by_cases hover : error.Overgrown
  · refine .inr ⟨hover, hover.failing?, fun v verbose j => ?_⟩
    obtain ⟨more, hmore⟩ := tracebackLines_eq v error verbose j
    rw [hover.failing?] at hmore
    exact ⟨more, hmore⟩
  · obtain ⟨site, hsite, hin⟩ := hplaced.resolve_right hover
    obtain ⟨s, hs⟩ := Option.isSome_iff_exists.mp hin
    have hfailing : World.failing? error = some s := by
      unfold World.failing?
      rw [hsite]
      exact hs
    refine .inl ⟨hover, s, hfailing, fun v verbose j => ?_⟩
    obtain ⟨more, hmore⟩ := tracebackLines_eq v error verbose j
    rw [hfailing] at hmore
    exact ⟨more, hmore⟩

end

/-! ## A number that is too large -/

theorem quietHost_tidy : quietHost.Tidy where
  command _ _ _ _ _ _ := .any _
  expression _ _ _ _ _ := .any _
  computedAlias _ _ := .pure (.inl rfl)
  write _ := .any _
  listener _ _ := .any _
  rule _ _ := .any _
  callback _ := .any _

/-- A statement that is a command. -/
def hoardLine (line : Int) (word : String) (args : List String) : Node where
  kind := .statement
  line
  children := { kind := .command, lexeme := some word, line } ::
    args.map fun a => { kind := .operand, lexeme := some a, line }

/-- A script that puts a text into a list and rests for as long as the entry says. -/
def hoardRoot (text : String) : Node where
  kind := .script
  children :=
    [hoardLine 1 "createlist" ["l"], hoardLine 2 "pushlist" ["l", text],
      { kind := .statement, line := 3
        children := [{ kind := .forEachStart, line := 3
                       children := [{ kind := .operand, lexeme := some "v", line := 3 },
                         { kind := .operand, lexeme := some "l", line := 3 }] }] },
      hoardLine 4 "pause" ["v"],
      { kind := .statement, line := 5, children := [{ kind := .forEnd, line := 5 }] }]

/-- A world that knows the commands of this script. -/
def hoardWorld : World Unit Unit where
  host := ()
  registry :=
    { commands := ((Table.empty.insert "createlist" (.bundled .createList)).insert "pushlist"
        (.bundled .pushList)).insert "pause" (.bundled .pause) }

/-- The script is loaded, and has come to its rest. -/
def hoarded (text : String) : World Unit Unit :=
  ticked ((Control.perform (.create "hoard" (hoardRoot text))).after hoardWorld) 3

theorem attested_ticked {w : World Unit Unit} (h : Attested w) (m : Nat) :
    Attested (ticked w m) := by
  induction m with
  | zero => exact h
  | succ m ih => exact .tick 0 quietHost_tidy ih

theorem attested_hoarded (text : String) : Attested (hoarded text) := by
  refine attested_ticked (.control _ (.start rfl rfl rfl) ?_) 3
  rintro root ⟨⟩ n hn
  simp only [hoardRoot, hoardLine, List.mem_cons, List.not_mem_nil, or_false] at hn
  rcases hn with rfl | rfl | rfl | rfl | rfl <;> rfl

/-- The line of the statement that the error of a tick lies in, and the report of it. -/
def reportOf : EStateM.Result Fault (World Unit Unit) Bool → Option (Option Int × List String)
  | .error (.script error) w =>
    some ((World.failing? error).map Site.line, w.tracebackLines error false (some 0))
  | _ => none

/-- A text that is no number is reported at the statement that has put it into the list. -/
theorem report_of_tick_soon :
    ∃ error w' s, tick quietHost 0 (hoarded "soon") = .error (.script error) w' ∧
      World.failing? error = some s ∧ s.line = 2 ∧
      ∀ (v : World Unit Unit) (verbose : Bool) (j : Option Nat), ∃ more,
        v.tracebackLines error verbose j = "Traceback (most recent call last):" ::
          ("  Script \"" ++ v.reportedName j ++ "\", line " ++ intText s.line) ::
          ("    " ++ s.node.render) :: more := by
  have hreport : reportOf (tick quietHost 0 (hoarded "soon")) =
      some (some 2, ["Traceback (most recent call last):", "  Script \"hoard\", line 2",
        "    pushlist l soon", "    State log index: 3  State id: s_000003",
        "ScriptRuntimeError: Cannot convert argument to int(soon)"]) := by decide +kernel
  obtain ⟨error, w', htick⟩ : ∃ error w',
      tick quietHost 0 (hoarded "soon") = .error (.script error) w' := by
    cases htick : tick quietHost 0 (hoarded "soon") with
    | ok alive w' =>
      rw [htick] at hreport
      cases hreport
    | error fault w' =>
      cases fault with
      | script error => exact ⟨error, w', rfl⟩
      | trouble why =>
        rw [htick] at hreport
        cases hreport
  rw [htick] at hreport
  have hline : (World.failing? error).map Site.line = some 2 :=
    congrArg Prod.fst (Option.some.inj hreport)
  rcases report_of_tick quietHost_tidy (attested_hoarded "soon") htick with
    ⟨-, s, hs, hplace⟩ | ⟨-, hnone, -⟩
  · rw [hs] at hline
    exact ⟨error, w', s, htick, hs, Option.some.inj hline, hplace⟩
  · rw [hnone] at hline
    cases hline

/-- **A report may show no place.**  The number in the list is too large to be read as a signed one,
so the statement on line 4 fails, and the report does not say where. -/
theorem unlocated_of_large :
    quietHost.Tidy ∧ Attested (hoarded "3000000000") ∧
      ((hoarded "3000000000").script 0).currentLine = 4 ∧
      reportOf (tick quietHost 0 (hoarded "3000000000")) =
        some (none, ["Traceback (most recent call last):", "  <unknown location> in hoard",
          "    State log index: 3  State id: s_000003",
          "ScriptRuntimeError: Cannot convert argument to int(3000000000)"]) :=
  ⟨quietHost_tidy, attested_hoarded _, by decide +kernel, by decide +kernel⟩

end Cadence
