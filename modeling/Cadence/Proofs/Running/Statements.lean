/-
  STATEMENTS — where each kind of statement leaves its script.

  A statement of a well-nested tree that goes well leaves its script standing somewhere again
  (`Stood`).  There is one lemma for each kind of statement; what they need to know about the links
  they take from `WellNested`, and what happens to the frames from `Framed`.  They are put together
  in `ends_executeHead`.

  Only a command may do more than its kind says.  It must leave the tree and the frames alone, but
  it may move the cursor, as jumps do; what is asked of it then is told by `LevelLanding`, and more
  strictly by `Landing`.
-/
import Cadence.Proofs.Running.Standing

namespace Cadence

open ScriptM

section

variable {σ ι : Type} {host : Host σ ι} {i : Nat} {T : Tree} {hs : List Nat}
  {c : Option Statement} {waits : Bool}

/-! ## The small changes -/

theorem ends_pushFrame {k : Nat} {t : Statement} (ht : T.statement? k = some t) :
    Ends (With i (Framed T hs c waits)) (pushFrame i t : ScriptM σ ι Unit)
      fun _ => With i (Framed T (k :: hs) c waits) :=
  .modifyScript fun _ h => h.push ht

theorem ends_popFrame {k : Nat} :
    Ends (With i (Framed T (k :: hs) c waits)) (modifyScript i Script.popFrame : ScriptM σ ι Unit)
      fun _ => With i (Framed T hs c waits) :=
  .modifyScript fun _ h => h.pop

theorem ends_mapTop {f : Frame → Frame} (hf : ∀ x, (f x).start = x.start) :
    Ends (With i (Framed T hs c waits)) (modifyScript i (·.mapTop f) : ScriptM σ ι Unit)
      fun _ => With i (Framed T hs c waits) :=
  .modifyScript fun _ h => h.mapTop hf

theorem ends_moveTo (d : Option Statement) :
    Ends (With i (Framed T hs c waits)) (moveTo i d : ScriptM σ ι Unit)
      fun _ => With i (Framed T hs d waits) :=
  .modifyScript fun _ h => h.moveTo d

theorem ends_clearTimeout :
    Ends (With i (Framed T hs c waits)) (modifyScript i Script.clearTimeout : ScriptM σ ι Unit)
      fun _ => With i (Framed T hs c false) :=
  .modifyScript fun _ h => h.clearTimeout

theorem ends_advance {k : Nat} :
    Ends (With i (Framed T hs (T.statement? k) waits)) (advance i : ScriptM σ ι Unit)
      fun _ => With i (Framed T hs (T.statement? (k + 1)) false) :=
  .modifyScript fun _ h => Tree.bind_next? k ▸ h.advance

theorem ends_countPass :
    Ends (With i (Framed T hs c waits)) (countPass i : ScriptM σ ι Unit)
      fun _ => With i (Framed T hs c waits) := by
  unfold countPass
  refine .script fun s _ => ?_
  split
  · exact .throw
  · exact ends_mapTop fun _ => rfl

/-- Going on from a statement with the frames that belong to the next position. -/
theorem ends_advance_stood {k : Nat} (hk : k < T.kinds.length)
    (he : enclosing T.kinds (k + 1) = hs) :
    Ends (With i (Framed T hs (T.statement? k) waits)) (advance i : ScriptM σ ι Unit)
      fun _ => With i (Stood T false) :=
  .mono ends_advance (fun _ h => h) fun _ _ h => ⟨h.1, .at hk (he ▸ h.2)⟩

theorem ends_moveTo_stood {k : Nat} {t : Statement} (ht : T.statement? k = some t)
    (he : enclosing T.kinds k = hs) :
    Ends (With i (Framed T hs c false)) (moveTo i (some t) : ScriptM σ ι Unit)
      fun _ => With i (Stood T false) :=
  .mono (ends_moveTo (some t)) (fun _ h => h) fun _ _ h =>
    ⟨h.1, .at (Nat.le_of_lt (Tree.lt_of_statement? ht)) (by rw [he, ht]; exact h.2)⟩

variable (hw : WellNested T.kinds) {k : Nat} {t : Statement} (ht : T.statement? k = some t)
  {head : Site}

/-! ## Choices -/

section

variable (hq : host.Keeps (Still i))
include hw hq

/-- From inside a choice one of its branches is entered, or its end is gone to. -/
theorem ends_enterBranch {o e : Nat} {fallback : Statement}
    (he : enclosing T.kinds e = o :: enclosing T.kinds o)
    (hf : T.statement? e = some fallback) (branches : List Statement)
    (hb : ∀ u ∈ branches, ∃ b, b ∈ (Links.ofKinds T.kinds).branchesOf o ∧ T.statement? b = some u) :
    Ends (With i (Framed T (o :: enclosing T.kinds o) c false))
      (enterBranch host i fallback branches) fun _ => With i (Stood T false) := by
  induction branches with
  | nil => exact ends_moveTo_stood hf he
  | cons u rest ih =>
    have ih := ih fun v hv => hb v (List.mem_cons_of_mem u hv)
    obtain ⟨b, hbo, hub⟩ := hb u (List.mem_cons_self ..)
    have hin := (hw.branch hbo).2.2
    -- behind the branch the same constructs enclose, so that is where the frames belong
    have enter : Ends (With i (Framed T (o :: enclosing T.kinds o) c false))
        (moveTo i u.next? : ScriptM σ ι Unit) fun _ => With i (Stood T false) := by
      rw [Tree.next?_of_statement? hub]
      refine .mono (ends_moveTo _) (fun _ h => h) fun _ _ h => ⟨h.1, ?_⟩
      exact .at (Tree.lt_of_statement? hub) (hin ▸ h.2)
    unfold enterBranch
    split
    · exact ih
    · refine .ite (fun _ => enter) fun _ => ?_
      refine .bind (.still (keeps_evaluateGuard (still_lenient i).toTolerant i hq _)) fun b => ?_
      exact .ite (fun _ => enter) fun _ => ih

include ht

/-- The start of a choice opens its frame, and leads into a branch or to the end. -/
theorem ends_executeIf (ho : holds Family.blocks.opens T.kinds k = true) :
    Ends (With i (Framed T (enclosing T.kinds k) (some t) false)) (executeIf host i t head)
      fun _ => With i (Stood T false) := by
  have hk := Tree.lt_of_statement? ht
  have hguard := keeps_evaluateGuard (still_lenient (σ := σ) (ι := ι) i) i hq.serves head
  unfold executeIf
  refine .bind (ends_pushFrame ht) fun _ => .bind (.still hguard) fun b =>
    .ite (fun _ => ?_) fun _ => ?_
  · rw [← ht]
    exact ends_advance_stood hk (WellNested.enclosing_succ_of_opens ho)
  · refine .script fun s hs => ?_
    split
    · exact .fail
    · rename_i fallback hf
      obtain ⟨e, he, hfb⟩ := hs.linked? ht hf
      rw [hs.links] at he
      refine .bind ends_clearTimeout fun _ => ?_
      refine ends_enterBranch hw hq (hw.choiceEnd he).2 hfb _ fun u hu => ?_
      unfold Script.branches at hu
      rw [hs.has.position? ht, hs.links] at hu
      obtain ⟨b, hb, hub⟩ := List.mem_filterMap.mp hu
      exact ⟨b, hb, hs.has.statementAt? b ▸ hub⟩

end

section

include hw ht

/-- A branch that is reached from the one before leads to the end of its choice. -/
theorem ends_skipBranch :
    Ends (With i (Framed T (enclosing T.kinds k) (some t) false))
      (skipBranch i t head : ScriptM σ ι Unit) fun _ => With i (Stood T false) := by
  unfold skipBranch
  refine .script fun s hs => ?_
  split
  · exact .fail
  · rename_i fallback hf
    obtain ⟨e, he, hfb⟩ := hs.linked? ht hf
    rw [hs.links] at he
    exact .bind ends_clearTimeout fun _ => ends_moveTo_stood hfb (hw.branchEnd he)

/-- The end of a choice closes its frame. -/
theorem ends_ifEnd (hc : holds Family.choices.closes T.kinds k = true) :
    Ends (With i (Framed T (enclosing T.kinds k) (some t) false))
      (do
        modifyScript i Script.popFrame
        advance i : ScriptM σ ι Unit) fun _ => With i (Stood T false) := by
  have hk := Tree.lt_of_statement? ht
  obtain ⟨kind, hkind, hcl⟩ := holds_iff.mp hc
  have hcb : holds Family.blocks.closes T.kinds k = true :=
    holds_iff.mpr ⟨kind, hkind, Family.choices_part.closes kind hcl⟩
  obtain ⟨o, ho, -⟩ := WellNested.innermostOf_iff.mp (hw.choices k hk hc)
  have he : enclosing T.kinds k = o :: enclosing T.kinds o := Family.openAt_of_head? ho
  rw [he]
  refine .bind ends_popFrame fun _ => ?_
  rw [← ht]
  exact ends_advance_stood hk (WellNested.enclosing_succ_of_closes hcb he)

/-! ## Loops -/

/-- A loop is left from its header: its frame is closed, and the script goes on behind its end. -/
theorem ends_exitLoop :
    Ends (With i (Framed T (k :: enclosing T.kinds k) (some t) waits))
      (exitLoop i t head : ScriptM σ ι Unit) fun _ => With i (Stood T false) := by
  unfold exitLoop
  refine .script fun s hs => ?_
  split
  · exact .fail
  · rename_i fallback hf
    obtain ⟨e, he, hfb⟩ := hs.linked? ht hf
    rw [hs.links] at he
    obtain ⟨hc, hen⟩ := hw.loopEnd he
    refine .bind ends_popFrame fun _ => .bind (ends_moveTo _) fun _ => ?_
    rw [← hfb]
    exact ends_advance_stood (Tree.lt_of_statement? hfb)
      (WellNested.enclosing_succ_of_closes hc hen)

/-- The end of a loop leads back to its header. -/
theorem ends_executeLoopEnd :
    Ends (With i (Framed T (enclosing T.kinds k) (some t) false))
      (executeLoopEnd i t head : ScriptM σ ι Unit) fun _ => With i (Stood T true) := by
  unfold executeLoopEnd
  refine .script fun s hs => ?_
  split
  · exact .fail
  · rename_i header hf
    obtain ⟨m, hm, hhm⟩ := hs.linked? ht hf
    rw [hs.links] at hm
    obtain ⟨hl, he⟩ := hw.loopHeader hm
    rw [he, ← hhm]
    exact .mono (ends_moveTo _) (fun _ h => h) fun _ _ h => ⟨h.1, .back hl h.2⟩

/-- A break closes everything up to and with its loop, and leads behind the loop's end. -/
theorem ends_executeBreak :
    Ends (With i (Framed T (enclosing T.kinds k) (some t) false))
      (executeBreak i t head : ScriptM σ ι Unit) fun _ => With i (Stood T false) := by
  unfold executeBreak
  refine .script fun s hs => ?_
  split
  · rename_i header fallback hf hg
    obtain ⟨m, hm, hhm⟩ := hs.linked? ht hf
    obtain ⟨e, he, hfe⟩ := hs.linked? ht hg
    obtain ⟨p, hp, rfl⟩ := Option.map_eq_some_iff.mp hm
    rw [hp, Option.map_some, Option.some_inj] at he
    rw [hs.links] at hp
    obtain ⟨hmem, hc, hen⟩ := hw.breakTarget hp
    obtain ⟨above, hab, hlt⟩ := Family.openAt_eq_append hmem
    have hab : enclosing T.kinds k = above ++ p.1 :: enclosing T.kinds p.1 := hab
    rw [hab]
    -- the frames above that of the loop were opened behind the loop's header
    have habove : ∀ a ∈ above, p.1 < a ∧ a < T.kinds.length := fun a ha =>
      ⟨hlt a ha, lt_of_mem_enclosing (hab ▸ List.mem_append_left _ ha)⟩
    refine .bind (.modifyScript fun _ h => h.unwind habove hhm true) fun _ => ?_
    refine .bind (ends_moveTo _) fun _ => ?_
    subst he
    rw [← hfe]
    exact ends_advance_stood (Tree.lt_of_statement? hfe)
      (WellNested.enclosing_succ_of_closes hc hen)
  · exact .fail

/-- A continue closes everything inside its loop, and leads back to the header. -/
theorem ends_executeContinue :
    Ends (With i (Framed T (enclosing T.kinds k) (some t) false))
      (executeContinue i t head : ScriptM σ ι Unit) fun _ => With i (Stood T true) := by
  unfold executeContinue
  refine .script fun s hs => ?_
  split
  · exact .fail
  · rename_i header hf
    obtain ⟨m, hm, hhm⟩ := hs.linked? ht hf
    rw [hs.links] at hm
    obtain ⟨hmem, hl⟩ := hw.continueTarget hm
    obtain ⟨above, hab, hlt⟩ := Family.openAt_eq_append hmem
    have hab : enclosing T.kinds k = above ++ m :: enclosing T.kinds m := hab
    rw [hab]
    have habove : ∀ a ∈ above, m < a ∧ a < T.kinds.length := fun a ha =>
      ⟨hlt a ha, lt_of_mem_enclosing (hab ▸ List.mem_append_left _ ha)⟩
    refine .bind (.modifyScript fun _ h => h.unwind habove hhm false) fun _ => ?_
    rw [← hhm]
    exact .mono (ends_moveTo _) (fun _ h => h) fun _ _ h => ⟨h.1, .back hl h.2⟩

end

/-! ## Loop headers -/

section

include ht

/-- A header goes on into its loop, with the frame of the loop. -/
theorem ends_enterLoop (hl : holds Kind.isLoopStart T.kinds k = true) :
    Ends (With i (Framed T (k :: enclosing T.kinds k) (some t) waits))
      (advance i : ScriptM σ ι Unit) fun _ => With i (Stood T false) := by
  obtain ⟨kind, hkind, hs⟩ := holds_iff.mp hl
  have ho : holds Family.blocks.opens T.kinds k = true :=
    holds_iff.mpr ⟨kind, hkind, Family.loops_part.opens kind hs⟩
  rw [← ht]
  exact ends_advance_stood (Tree.lt_of_statement? ht) (WellNested.enclosing_succ_of_opens ho)

/-- A header stands in its own frame exactly when the script is back on it. -/
theorem ends_standsIn {α : Type} {back : Bool} {x y : ScriptM σ ι α} {Q : α → World σ ι → Prop}
    (hx : Ends (With i (Framed T (enclosing T.kinds k) (some t) waits)) x Q)
    (hy : Ends (With i (Framed T (k :: enclosing T.kinds k) (some t) waits)) y Q) :
    Ends (With i (Framed T (T.headers back k) (some t) waits))
      (do if !(← standsIn i t) then x else y) Q := by
  have hlt : ∀ m ∈ T.headers back k, m < T.kinds.length := by
    intro m hm
    unfold Tree.headers at hm
    split at hm
    · rcases List.mem_cons.mp hm with rfl | hm
      · exact Tree.lt_of_statement? ht
      · exact lt_of_mem_enclosing hm
    · exact lt_of_mem_enclosing hm
  intro w a w' hw hok
  have hopen := hw.2.openedBy hlt ht
  have hok : (if !(w.script i).frames.top.openedBy t then x else y) w = .ok a w' := hok
  cases back with
  | true =>
    have : (w.script i).frames.top.openedBy t = true := hopen.mpr rfl
    rw [this] at hok
    exact hy w a w' hw hok
  | false =>
    have : (w.script i).frames.top.openedBy t = false := by
      rw [Bool.eq_false_iff]
      intro h
      -- no position encloses itself
      exact absurd (Family.mem_openAt (List.mem_of_head? (hopen.mp h))).1 (Nat.lt_irrefl k)
    rw [this] at hok
    exact hx w a w' hw hok

variable {back : Bool} (hl : holds Kind.isLoopStart T.kinds k = true)
include hw hl

theorem ends_executeWhile (hq : host.Keeps (Still i)) :
    Ends (With i (Framed T (T.headers back k) (some t) false)) (executeWhile host i t head)
      fun _ => With i (Stood T false) := by
  have hguard := keeps_evaluateGuard (still_lenient (σ := σ) (ι := ι) i) i hq.serves head
  have ask : Ends (With i (Framed T (k :: enclosing T.kinds k) (some t) false)) (do
      if ← evaluateGuard host i head then advance i else exitLoop i t head)
      fun _ => With i (Stood T false) :=
    .bind (.still hguard) fun b =>
      .ite (fun _ => ends_enterLoop ht hl) fun _ => ends_exitLoop hw ht
  unfold executeWhile
  exact ends_standsIn ht (.bind (ends_pushFrame ht) fun _ => ask) ask

theorem ends_followCount :
    Ends (With i (Framed T (k :: enclosing T.kinds k) (some t) false))
      (followCount i t head : ScriptM σ ι Unit) fun _ => With i (Stood T false) := by
  unfold followCount
  refine .script fun s _ => ?_
  split
  · exact ends_exitLoop hw ht
  · exact .ite (fun _ => ends_enterLoop ht hl) fun _ => ends_exitLoop hw ht

theorem ends_followElement (name : String) (list : Site) (listName : String) :
    Ends (With i (Framed T (k :: enclosing T.kinds k) (some t) false))
      (followElement i t head name list listName : ScriptM σ ι Unit)
      fun _ => With i (Stood T false) := by
  have hL := still_lenient (σ := σ) (ι := ι) i
  unfold followElement
  refine .script fun s _ => .bind (.still (keeps_listElement hL list listName _)) fun value => ?_
  split
  · exact .bind (ends_mapTop fun _ => rfl) fun _ => ends_enterLoop ht hl
  · exact .bind (ends_mapTop fun _ => rfl) fun _ => ends_exitLoop hw ht

theorem ends_executeFor :
    Ends (With i (Framed T (T.headers back k) (some t) false))
      (executeFor i t head : ScriptM σ ι Unit) fun _ => With i (Stood T false) := by
  have hL := still_lenient (σ := σ) (ι := ι) i
  have go : Ends _ (followCount i t head : ScriptM σ ι Unit) _ := ends_followCount hw ht hl
  unfold executeFor
  split
  · exact .fail
  · -- once the pass is counted, entered or come back to makes no difference
    refine .ite (fun _ => .fail) fun _ => ends_standsIn ht ?_ (.bind ends_countPass fun _ => go)
    refine .bind (ends_pushFrame ht) fun _ => .bind (.still (.reading hL _)) fun n => ?_
    exact .bind (ends_mapTop fun _ => rfl) fun _ => go

theorem ends_executeForEach :
    Ends (With i (Framed T (T.headers back k) (some t) false))
      (executeForEach i t head : ScriptM σ ι Unit) fun _ => With i (Stood T false) := by
  unfold executeForEach
  split
  · rename_i name list listName _ _
    have go : Ends _ (followElement i t head name list listName : ScriptM σ ι Unit) _ :=
      ends_followElement hw ht hl name list listName
    refine ends_standsIn ht ?_ (.bind ends_countPass fun _ => go)
    exact .bind (ends_pushFrame ht) fun _ => .bind (ends_mapTop fun _ => rfl) fun _ => go
  · exact .fail

end

/-! ## The rest -/

/-- A statement from which the script comes back to a loop header: an end of a loop, or a
continue. -/
def Statement.returns (t : Statement) : Bool :=
  t.head?.any fun head =>
    head.kind = .whileEnd ∨ head.kind = .forEnd ∨ head.kind = .continueLoop

theorem Statement.returns_of_head? {t : Statement} {head : Site} (hh : t.head? = some head) :
    t.returns =
      decide (head.kind = .whileEnd ∨ head.kind = .forEnd ∨ head.kind = .continueLoop) := by
  rw [returns, hh, Option.any_some]

/-- A script that was stopped stands where it stood, without a cursor. -/
theorem ends_stop {c : Option Statement} (hk : k ≤ T.kinds.length) :
    Ends (With i (Framed T (enclosing T.kinds k) c false))
      (moveTo i none : ScriptM σ ι Unit) fun _ => With i (Stood T false) :=
  .modifyScript fun _ h => ⟨k, none, false, hk, h.moveTo none, .inl rfl, nofun, nofun⟩

/-- A script that starts again stands at the beginning. -/
theorem ends_executeReplay (ht : T.statement? k = some t) {hs : List Nat} {c : Option Statement} :
    Ends (With i (Framed T hs c false)) (executeReplay i t : ScriptM σ ι Unit)
      fun _ => With i (Stood T false) :=
  .modifyScript fun _ h => .at (Nat.zero_le _) (Tree.first_of_statement? ht ▸ h.bottom.moveTo _)

/-- A place that no construct encloses, or the end. -/
def Tree.Outside (T : Tree) (c : Option Statement) : Prop :=
  c = none ∨ ∃ k, T.statement? k = c ∧ enclosing T.kinds k = []

/-- The tree of a script. -/
def Script.tree (s : Script ι) : Tree := ⟨s.root, s.load⟩

/-- A command, with its answer, leaves the cursor where it is; or it jumps from a place that no
construct encloses, the script goes on at such a place, and it does not wait there. -/
def Landing (i : Nat) (b : Bool) (v v' : World σ ι) : Prop :=
  (v'.script i).cursor = (v.script i).cursor ∨
    ((v.script i).tree.Outside (v.script i).cursor ∧
      (v.script i).tree.Outside
        (if b then (v'.script i).cursor.bind Statement.next? else (v'.script i).cursor) ∧
      (b = false → (v'.script i).activity ≠ .timingOut))

theorem Framed.tree {s : Script ι} (h : Framed T hs c waits s) : s.tree = T := by
  show Tree.mk s.root s.load = T
  rw [h.root, h.load]

/-- A place, or none at all, where the same constructs enclose as at another place. -/
def Tree.Level (T : Tree) (c d : Option Statement) : Prop :=
  ∃ k m, T.statement? k = c ∧ m ≤ T.kinds.length ∧ enclosing T.kinds m = enclosing T.kinds k ∧
    (d = none ∨ d = T.statement? m)

/-- A command, with its answer, leaves the cursor where it is; or it jumps, the script goes on where
the same constructs enclose, and it does not wait there. -/
def LevelLanding (i : Nat) (b : Bool) (v v' : World σ ι) : Prop :=
  (v'.script i).cursor = (v.script i).cursor ∨
    ((v.script i).tree.Level (v.script i).cursor
        (if b then (v'.script i).cursor.bind Statement.next? else (v'.script i).cursor) ∧
      (b = false → (v'.script i).activity ≠ .timingOut))

/-- Outside of all constructs every place is enclosed by the same. -/
theorem Tree.Outside.level {d : Option Statement} (hc : T.Outside (some t)) (hd : T.Outside d) :
    T.Level (some t) d := by
  obtain ⟨k, hk, he⟩ : ∃ k, T.statement? k = some t ∧ enclosing T.kinds k = [] := by
    rcases hc with hn | h
    · exact absurd hn (by simp)
    · exact h
  have hlt := Tree.lt_of_statement? hk
  rcases hd with rfl | ⟨m, rfl, hm⟩
  · exact ⟨k, k, hk, Nat.le_of_lt hlt, rfl, .inl rfl⟩
  · cases hs : T.statement? m with
    | none => exact ⟨k, k, hk, Nat.le_of_lt hlt, rfl, .inl rfl⟩
    | some a =>
      exact ⟨k, m, hk, Nat.le_of_lt (Tree.lt_of_statement? hs), hm.trans he.symm, .inr hs.symm⟩

theorem Landing.level {b : Bool} {v v' : World σ ι} (hv : (v.script i).cursor = some t)
    (h : Landing i b v v') : LevelLanding i b v v' := by
  refine h.imp id fun ⟨hout, hland, hwait⟩ => ⟨?_, hwait⟩
  rw [hv] at hout ⊢
  exact hout.level hland

/-- **A command leaves its script standing**, when it leaves the frames alone and lands where the
same constructs enclose. -/
theorem stood_of_command {v w' : World σ ι} {a : Unit} (hcmd : t.isCommand = true)
    (hv : With i (Framed T (enclosing T.kinds k) (some t) waits) v)
    (ht : T.statement? k = some t)
    (hkeep : Keeps (SameChain i) (executeCommand host i t.site.children))
    (hland : ∀ b v', executeCommand host i t.site.children v = .ok b v' → LevelLanding i b v v')
    (h : (do if ← executeCommand host i t.site.children then advance i) v = .ok a w') :
    With i (Stood T false) w' := by
  obtain ⟨b, v', hrun, hrest⟩ := bind_ok h
  have hs := hkeep.ok hrun
  have hsize := hs.size hv.1
  have hk := Tree.lt_of_statement? ht
  obtain ⟨hopen, hclose, -⟩ := not_holds_of_command ht hcmd
  rcases hland b v' hrun with hc | ⟨hland, hwait⟩
  · have hf : Framed T (enclosing T.kinds k) (some t) true (v'.script i) :=
      hv.2.samePlace ⟨hs, hc⟩
    cases b with
    | true =>
      rw [← ht] at hf
      exact ends_advance_stood hk (WellNested.enclosing_succ_of_neither hopen hclose) v' a w'
        ⟨hsize, hf⟩ hrest
    | false =>
      cases hrest
      exact ⟨hsize, .command ht hcmd hf⟩
  · -- the jump takes the frames along, and they belong to the place where it lands
    rw [hv.2.tree, hv.2.cursor] at hland
    obtain ⟨k', m, hk', hm, he, hd⟩ := hland
    obtain rfl : k' = k := (Tree.same_iff hk' ht).mp ((Tree.same_iff ht ht).mpr rfl)
    have hf : Framed T (enclosing T.kinds m) (v'.script i).cursor true (v'.script i) :=
      ⟨hs.root.trans hv.2.root, hs.load.trans hv.2.load, hs.links.trans hv.2.links,
        hs.starts.trans (he ▸ hv.2.starts), rfl, fun _ => rfl⟩
    cases b with
    | true =>
      have hadv : Ends (With i (Framed T (enclosing T.kinds m) (v'.script i).cursor true))
          (advance i : ScriptM σ ι Unit) fun _ =>
            With i (Framed T (enclosing T.kinds m) ((v'.script i).cursor.bind Statement.next?)
              false) :=
        .modifyScript fun _ h => h.advance
      obtain ⟨hsize', hf'⟩ := hadv v' a w' ⟨hsize, hf⟩ hrest
      exact ⟨hsize', m, _, false, hm, hf', hd, nofun, nofun⟩
    | false =>
      cases hrest
      exact ⟨hsize, m, _, false, hm, ⟨hf.root, hf.load, hf.links, hf.starts, rfl,
        fun ha => absurd ha (hwait rfl)⟩, hd, nofun, nofun⟩

end

end Cadence
