/-
  POISED — a script that runs, and what its next tick makes of it.

  A script is POISED when everything that guides it is told: the statement under its cursor, its
  frames, with their counts, and the points to go back to (`Poised`).  Here are the ticks of a poised
  script at a jump and at a return, at the start of a choice, and at the header and the end of a
  counted loop (`Counted`); after each of them the script is poised again.

  A jump and a return take the frames along as they are.
-/
import Cadence.Proofs.Running.Returning

namespace Cadence

open ScriptM

section

variable {σ ι : Type}

/-! ## Poised scripts -/

/-- A script runs in a tree, with the given cursor, frames and points to go back to, and it knows
the given commands. -/
structure Poised (T : Tree) (i : Nat) (K : Table (Handler Bundled.Command ι))
    (c : Option Statement) (F : Frames) (S : List Statement) (w : World σ ι) : Prop where
  /-- The script is there. -/
  size : i < w.scripts.size
  /-- The tree is loaded. -/
  root : (w.script i).root = T.root
  /-- It is this loading of the tree. -/
  load : (w.script i).load = T.load
  /-- The links are those of the tree. -/
  links : (w.script i).links = Links.ofKinds T.kinds
  /-- The cursor. -/
  cursor : (w.script i).cursor = c
  /-- The frames. -/
  frames : (w.script i).frames = F
  /-- The points to go back to. -/
  returns : (w.script i).returns = S
  /-- The script runs. -/
  activity : (w.script i).activity = .running
  /-- The commands. -/
  commands : w.registry.commands = K

variable {host : Host σ ι} {i : Nat} {T : Tree} {K : Table (Handler Bundled.Command ι)}
  {c d : Option Statement} {F G : Frames} {S R : List Statement} {w w' : World σ ι}

namespace Poised

theorem unmoved (h : Poised T i K c F S w) (hw : Unmoved w w') : Poised T i K c F S w' := by
  have hs := hw.script i
  constructor
  · rw [hw.scripts]
    exact h.size
  · rw [hs]
    exact h.root
  · rw [hs]
    exact h.load
  · rw [hs]
    exact h.links
  · rw [hs]
    exact h.cursor
  · rw [hs]
    exact h.frames
  · rw [hs]
    exact h.returns
  · rw [hs]
    exact h.activity
  · rw [hw.commands]
    exact h.commands

/-- What a change of the place makes of a poised script. -/
theorem modify (h : Poised T i K c F S w) {f : Script ι → Script ι}
    (hf : f (w.script i) = { w.script i with cursor := d, frames := G, returns := R }) :
    Poised T i K d G R (w.modifyScript i f) := by
  have hs := World.script_modifyScript_self f h.size
  rw [hf] at hs
  constructor
  · rw [World.size_modifyScript]
    exact h.size
  · rw [hs]
    exact h.root
  · rw [hs]
    exact h.load
  · rw [hs]
    exact h.links
  · rw [hs]
  · rw [hs]
  · rw [hs]
  · rw [hs]
    exact h.activity
  · exact h.commands

/-- A change of the frames alone. -/
theorem modifyFrames (h : Poised T i K c F S w) {f : Script ι → Script ι}
    (hf : f (w.script i) = { w.script i with frames := G }) :
    Poised T i K c G S (w.modifyScript i f) := by
  refine h.modify ?_
  rw [hf, ← h.cursor, ← h.returns]

/-- A change of the cursor alone. -/
theorem moveTo (h : Poised T i K c F S w) (d : Option Statement) :
    Poised T i K d F S (w.modifyScript i fun s => { s with cursor := d }) := by
  refine h.modify ?_
  rw [← h.frames, ← h.returns]

/-- A running script that goes on moves its cursor. -/
theorem advance_eq (h : Poised T i K c F S w) :
    (w.script i).advance = { w.script i with cursor := c.bind Statement.next? } := by
  have hclear : (w.script i).clearTimeout = w.script i := by
    unfold Script.clearTimeout
    rw [if_neg (by rw [h.activity]; decide)]
  show { (w.script i).clearTimeout with
    cursor := (w.script i).clearTimeout.cursor.bind Statement.next? } = _
  rw [hclear, h.cursor]

theorem advance {k : Nat} (h : Poised T i K (T.statement? k) F S w) :
    Poised T i K (T.statement? (k + 1)) F S (w.modifyScript i Script.advance) := by
  refine h.modify ?_
  rw [h.advance_eq, Tree.bind_next?, ← h.frames, ← h.returns]

theorem has (h : Poised T i K c F S w) : (w.script i).Has T := ⟨h.root, h.load⟩

end Poised

/-- **A tick of a poised script** makes of it what its statement does. -/
theorem tick_of_poised (hh : host.Unobtrusive) {t : Statement} {Q : World σ ι → Prop}
    (hQ : ∀ {v v'}, Q v → Unmoved v v' → Q v') (hw : Poised T i K (some t) F S w)
    (hx : ∀ v, Poised T i K (some t) F S v → v.active = some i → v.scripts = w.scripts →
      ∃ v', executeStatement host i t v = .ok () v' ∧ Q v') :
    ∃ b w', tick host i w = .ok b w' ∧ Q w' := by
  let u : World σ ι := { w with active := some i }
  have hu : Poised T i K (some t) F S u := hw.unmoved ⟨rfl, rfl, rfl⟩
  obtain ⟨v, huv, hok, -⟩ := step_executes hh hu.cursor
  obtain ⟨v', hexecute, hv'⟩ := hx v (hu.unmoved huv.unmoved) huv.active huv.scripts
  obtain ⟨w', hstep, hw'⟩ := hok v' hexecute
  exact ⟨(v'.script i).isRunning, w', (tick_of_running hw.activity).trans hstep, hQ hv' hw'⟩

/-! ## Jumps and returns -/

/-- A jump takes the frames along. -/
theorem tick_of_jump (hh : host.Unobtrusive) {g : Statement} (hw : Poised T i K (some g) F S w)
    {line : Argument} {more : List Argument} {n : Int} {q : Nat}
    (ha : g.Asks i .goto (line :: more) w) (hint : w.asInt line = .ok n)
    (hline : (w.script i).statementOn? n = T.statement? q) (hq : q < T.kinds.length) :
    ∃ b w', tick host i w = .ok b w' ∧ Poised T i K (T.statement? q) F (g :: S) w' := by
  obtain ⟨t, ht⟩ := Tree.exists_statement? hq
  rw [ht] at hline ⊢
  refine tick_of_poised hh Poised.unmoved hw fun v hv hactive hscripts => ?_
  have hsame : v.script i = w.script i := by rw [World.script, World.script, hscripts]
  have hgoto : (v.script i).gotoLine? n = some { v.script i with
      cursor := some t, returns := (v.script i).cursor.toList ++ (v.script i).returns } :=
    Script.gotoLine?_of_statementOn? (by rw [hsame, hline])
  refine ⟨_, executeStatement_of_goto (ha.congr (hv.commands.trans hw.commands.symm))
    (by rw [asInt_congr hscripts, hint]) hactive hgoto, hv.modify ?_⟩
  rw [hv.cursor, hv.returns, ← hv.frames]
  rfl

/-- A return takes the frames along, too. -/
theorem tick_of_return (hh : host.Unobtrusive) {r g : Statement} {k : Nat} {args : List Argument}
    (hw : Poised T i K (some r) F (g :: S) w) (ha : r.Asks i .return_ args w)
    (hg : T.statement? k = some g) :
    ∃ b w', tick host i w = .ok b w' ∧ Poised T i K (T.statement? (k + 1)) F S w' := by
  refine tick_of_poised hh Poised.unmoved hw fun v hv hactive _ => ?_
  have hback : (v.script i).returnFromGoto =
      { v.script i with cursor := some g, frames := F, returns := S } := by
    rw [Script.returnFromGoto_of_cons hv.returns, ← hv.frames]
  have hthere : Poised T i K (T.statement? k) F S (v.modifyScript i Script.returnFromGoto) :=
    hg ▸ hv.modify hback
  have hmodify := hthere.advance
  rw [World.modifyScript_modifyScript] at hmodify
  exact ⟨_, executeStatement_of_return (ha.congr (hv.commands.trans hw.commands.symm)) hactive,
    hmodify⟩

/-! ## Choices -/

/-- A choice whose guard holds is entered in a frame of its own. -/
theorem tick_of_choice (hh : host.Unobtrusive) {t : Statement} {head : Site} {k : Nat}
    (ht : T.statement? k = some t) (hs : t.site.kind = .statement) (hhead : t.head? = some head)
    (hkind : head.kind = .ifStart)
    (hguard : ∀ v : World σ ι, evaluateGuard host i head v = .ok true v)
    (hw : Poised T i K (some t) F S w) :
    ∃ b w', tick host i w = .ok b w' ∧ Poised T i K (T.statement? (k + 1)) (F.push t) S w' := by
  refine tick_of_poised hh Poised.unmoved hw fun v hv _ _ => ?_
  have hpush : Poised T i K (some t) (F.push t) S (v.modifyScript i (·.pushFrame t)) := by
    refine hv.modifyFrames ?_
    unfold Script.pushFrame
    rw [hv.frames]
  rw [← ht] at hpush
  refine ⟨_, ?_, hpush.advance⟩
  unfold executeStatement
  rw [if_neg (not_not_intro hs), hhead]
  simp only
  unfold executeHead
  rw [hkind]
  show (evaluateGuard host i head >>= fun b => _) (v.modifyScript i (·.pushFrame t)) = _
  rw [bind_of_ok (hguard _)]
  rfl

/-! ## The ends of loops -/

/-- The end of a loop leads back to the header. -/
theorem Poised.executeStatement_of_loopEnd {p e : Nat} {t u : Statement} {head : Site}
    (ht : T.statement? p = some t) (hu : T.statement? e = some u)
    (hs : u.site.kind = .statement) (hhead : u.head? = some head) (hkind : head.kind = .forEnd)
    (hlinked : (p, e) ∈ (Links.ofKinds T.kinds).loopEnds) (hw : Poised T i K (some u) F S w) :
    executeStatement host i u w =
      .ok () (w.modifyScript i fun s => { s with cursor := some t }) := by
  have hheader : (w.script i).loopHeader? u = some t := by
    unfold Script.loopHeader?
    rw [hw.has.linked? hu, hw.links, Links.loopHeader?_eq_some_iff.mpr hlinked]
    exact ht
  unfold executeStatement
  rw [if_neg (not_not_intro hs), hhead]
  show executeHead host i u head w = _
  unfold executeHead
  rw [hkind]
  show executeLoopEnd i u head w = _
  unfold executeLoopEnd
  rw [script_bind, hheader]
  rfl

/-- A loop is left behind its end, in the frames around it. -/
theorem Poised.exitLoop_of_linked {p e : Nat} {t u : Statement} (head : Site)
    (ht : T.statement? p = some t) (hu : T.statement? e = some u)
    (hlinked : (p, e) ∈ (Links.ofKinds T.kinds).loopEnds) (houter : G.outer = F.toList)
    (hw : Poised T i K (some t) G S w) :
    ∃ f, exitLoop i t head w = .ok () (w.modifyScript i f) ∧
      Poised T i K (T.statement? (e + 1)) F S (w.modifyScript i f) := by
  let there : Script ι → Script ι := fun s => { s with cursor := some u }
  have hend : (w.script i).loopEnd? t = some u := by
    unfold Script.loopEnd?
    rw [hw.has.linked? ht, hw.links, Links.loopEnd?_eq_some_iff.mpr hlinked]
    exact hu
  have hpop : Poised T i K (some t) F S (w.modifyScript i Script.popFrame) := by
    refine hw.modifyFrames ?_
    unfold Script.popFrame
    rw [hw.frames, Frames.pop_of_outer houter]
  have hthere : Poised T i K (T.statement? e) F S
      ((w.modifyScript i Script.popFrame).modifyScript i there) := by
    rw [hu]
    exact hpop.moveTo (some u)
  have hgone := hthere.advance
  have hexit : exitLoop i t head w =
      .ok () (((w.modifyScript i Script.popFrame).modifyScript i there).modifyScript i
        Script.advance) := by
    unfold exitLoop
    rw [script_bind, hend]
    rfl
  simp only [World.modifyScript_modifyScript] at hgone hexit
  exact ⟨_, hexit, hgone⟩

/-! ## Counted loops -/

/-- A loop of a tree that counts its passes, with its header and the site of the bound. -/
structure Counted (T : Tree) (p e : Nat) (t : Statement) (bound : Site) : Prop where
  /-- The header stands at the first position. -/
  header : T.statement? p = some t
  /-- It is a statement. -/
  statement : t.site.kind = .statement
  /-- It begins a counted loop with the bound. -/
  head : ∃ head, t.head? = some head ∧ head.kind = .forStart ∧ head.firstChild? = some bound
  /-- The bound is a number. -/
  bound : bound.kind = .integer
  /-- The end stands at the second position. -/
  ending : ∃ u head, T.statement? e = some u ∧ u.site.kind = .statement ∧ u.head? = some head ∧
    head.kind = .forEnd
  /-- The two belong together. -/
  linked : (p, e) ∈ (Links.ofKinds T.kinds).loopEnds

/-- Frames in a pass of a counted loop: that of the loop, with its count and with variables of which
something is known, inside those around the loop. -/
structure Frames.Passing (F : Frames) (t : Statement) (n : Int) (V : Table Argument → Prop) (j : Nat)
    (G : Frames) : Prop where
  /-- The innermost frame is that of the loop. -/
  start : G.top.start = some t
  /-- It has counted the passes. -/
  loop : G.top.loop = some { index := j, bound := some n }
  /-- Its variables. -/
  vars : V G.top.vars
  /-- Around it are the frames around the loop. -/
  outer : G.outer = F.toList

theorem Tree.same_self {k : Nat} {t : Statement} (ht : T.statement? k = some t) :
    t.same t = true := (Tree.same_iff ht ht).mpr rfl

/-- A statement stands at one position. -/
theorem Tree.eq_of_statement? {j k : Nat} {t : Statement} (hj : T.statement? j = some t)
    (hk : T.statement? k = some t) : j = k :=
  (Tree.same_iff hj hk).mp (Tree.same_self hj)

/-- A new frame without variables binds nothing. -/
theorem asUInt_pushFrame (w : World σ ι) (i : Nat) (t : Statement) (a : Argument) :
    (w.modifyScript i (·.pushFrame t)).asUInt a = w.asUInt a := by
  have hlookup : ∀ j name, ((w.modifyScript i (·.pushFrame t)).script j).lookup name =
      (w.script j).lookup name := by
    intro j name
    rw [World.script_modifyScript]
    split
    · rfl
    · rfl
  have hbindings : (w.scripts.modify i (·.pushFrame t)).toList.map World.bindingsOf =
      w.scripts.toList.map World.bindingsOf := by
    apply List.ext_getElem
    · simp
    · intro j h₁ h₂
      rw [List.getElem_map, List.getElem_map, Array.getElem_toList, Array.getElem_toList,
        Array.getElem_modify]
      split
      · show 0 + World.bindingsOf _ = _
        rw [Nat.zero_add]
      · rfl
  have hcount : (w.modifyScript i (·.pushFrame t)).bindingCount = w.bindingCount :=
    congrArg (List.foldr (· + ·) 0) hbindings
  unfold World.asUInt World.read
  rw [resolveText_of_lookup hlookup hcount]

/-- A script is poised in frames of a kind. -/
def PoisedIn (T : Tree) (i : Nat) (K : Table (Handler Bundled.Command ι)) (c : Option Statement)
    (Γ : Frames → Prop) (S : List Statement) (w : World σ ι) : Prop :=
  ∃ G, Γ G ∧ Poised T i K c G S w

theorem PoisedIn.unmoved {Γ : Frames → Prop} (h : PoisedIn T i K c Γ S w) (hw : Unmoved w w') :
    PoisedIn T i K c Γ S w' := by
  obtain ⟨G, hG, hp⟩ := h
  exact ⟨G, hG, hp.unmoved hw⟩

/-- Before a pass of a counted loop: in its body, if there is such a pass, or else behind its end. -/
def BeforePass (T : Tree) (i : Nat) (K : Table (Handler Bundled.Command ι)) (p e : Nat)
    (F : Frames) (t : Statement) (n : Int) (V : Table Argument → Prop) (j : Nat)
    (S : List Statement) (w : World σ ι) : Prop :=
  if (j : Int) < n then PoisedIn T i K (T.statement? (p + 1)) (F.Passing t n V j) S w
  else Poised T i K (T.statement? (e + 1)) F S w

section

variable {p e : Nat} {t : Statement} {n : Int} {V : Table Argument → Prop} {j : Nat}

theorem BeforePass.body (hj : (j : Int) < n)
    (h : PoisedIn T i K (T.statement? (p + 1)) (F.Passing t n V j) S w) :
    BeforePass T i K p e F t n V j S w := by
  unfold BeforePass
  rwa [if_pos hj]

theorem BeforePass.behind (hj : ¬ (j : Int) < n)
    (h : Poised T i K (T.statement? (e + 1)) F S w) : BeforePass T i K p e F t n V j S w := by
  unfold BeforePass
  rwa [if_neg hj]

theorem BeforePass.unmoved (h : BeforePass T i K p e F t n V j S w) (hw : Unmoved w w') :
    BeforePass T i K p e F t n V j S w' := by
  unfold BeforePass at h
  split at h
  · rename_i hj
    exact .body hj (h.unmoved hw)
  · rename_i hj
    exact .behind hj (h.unmoved hw)

end

namespace Counted

variable {p e : Nat} {t : Statement} {bound : Site} {n : Int} {V : Table Argument → Prop} {j : Nat}
  (hl : Counted T p e t bound)
include hl

/-- The end stands behind the header. -/
theorem lt : p < e := by
  rcases Links.mem_loopEnds.mp hl.linked with ⟨-, h⟩ | ⟨-, h⟩
  · exact (Family.mem_openAt (List.mem_of_head? h)).1
  · exact (Family.mem_openAt (List.mem_of_head? h)).1

theorem openedBy_passing (hG : F.Passing t n V j G) :
    G.top.openedBy t = true := by
  unfold Frame.openedBy
  rw [hG.start]
  exact Tree.same_self hl.header

/-- With the count of a pass the header leads into the body, or behind the end of the loop. -/
theorem followCount_of_passing (head : Site) (hG : F.Passing t n V j G)
    (hw : Poised T i K (some t) G S w) :
    ∃ v, followCount i t head w = .ok () v ∧ BeforePass T i K p e F t n V j S v := by
  obtain ⟨u, _, hu, -⟩ := hl.ending
  have hcount : (w.script i).frames.top.loop = some { index := j, bound := some n } := by
    rw [hw.frames, hG.loop]
  unfold followCount
  rw [script_bind, hcount]
  simp only
  by_cases hj : (j : Int) < n
  · have hgoes : Count.continues { index := j, bound := some n } = true :=
      Count.continues_iff.mpr ⟨n, rfl, hj⟩
    rw [if_pos hgoes]
    rw [← hl.header] at hw
    exact ⟨_, rfl, .body hj ⟨G, hG, hw.advance⟩⟩
  · have hends : ¬ Count.continues { index := j, bound := some n } = true := by
      rintro hgoes
      obtain ⟨_, ⟨⟩, hlt⟩ := Count.continues_iff.mp hgoes
      exact hj hlt
    rw [if_neg hends]
    obtain ⟨f, hexit, hbehind⟩ := hw.exitLoop_of_linked head hl.header hu hl.linked hG.outer
    exact ⟨_, hexit, .behind hj hbehind⟩

theorem executeStatement_eq (host : Host σ ι) :
    ∃ head, head.firstChild? = some bound ∧
      executeStatement host i t = executeFor (σ := σ) (ι := ι) i t head := by
  obtain ⟨head, hhead, hkind, hfirst⟩ := hl.head
  refine ⟨head, hfirst, ?_⟩
  unfold executeStatement
  rw [if_neg (not_not_intro hl.statement), hhead]
  simp only
  unfold executeHead
  rw [hkind]

/-- The header begins to count in a frame of its own, when another frame is innermost. -/
theorem executeStatement_of_new (hV : V .empty) (hw : Poised T i K (some t) F S w)
    (hnew : F.top.openedBy t = false) (hn : w.asUInt ⟨i, bound⟩ = .ok n) :
    ∃ v, executeStatement host i t w = .ok () v ∧ BeforePass T i K p e F t n V 0 S v := by
  obtain ⟨head, hfirst, heq⟩ := hl.executeStatement_eq host
  have hstands : standsIn i t w = .ok false w := by
    show EStateM.Result.ok ((w.script i).frames.top.openedBy t) w = _
    rw [hw.frames, hnew]
  let u := w.modifyScript i (·.pushFrame t)
  have hu : Poised T i K (some t) (F.push t) S u := by
    refine hw.modifyFrames ?_
    unfold Script.pushFrame
    rw [hw.frames]
  have hread : reading (fun w => w.asUInt ⟨i, bound⟩) u = .ok n u := by
    rw [reading_apply, asUInt_pushFrame, hn]
  let u' := u.modifyScript i (·.mapTop fun f => { f with loop := some { bound := some n } })
  have hu' : Poised T i K (some t)
      ((F.push t).mapTop fun f => { f with loop := some { bound := some n } }) S u' := by
    refine hu.modifyFrames ?_
    unfold Script.mapTop
    rw [hu.frames]
  obtain ⟨v, hfollow, hv⟩ := hl.followCount_of_passing head (F := F) (j := 0) ⟨rfl, rfl, hV, rfl⟩ hu'
  refine ⟨v, ?_, hv⟩
  rw [heq]
  unfold executeFor
  rw [hfirst]
  simp only
  rw [if_neg (not_not_intro hl.bound), bind_of_ok hstands]
  show (pushFrame i t >>= fun _ => reading (fun w => w.asUInt ⟨i, bound⟩) >>= fun n =>
    startCount i (some n) >>= fun _ => followCount i t head) w = _
  have hpush : pushFrame i t w = .ok () u := rfl
  have hstart : startCount i (some n) u = .ok () u' := rfl
  rw [bind_of_ok hpush, bind_of_ok hread, bind_of_ok hstart, hfollow]

/-- The header counts on in its own frame, when that is innermost. -/
theorem executeStatement_of_passing (hG : F.Passing t n V j G)
    (hw : Poised T i K (some t) G S w) :
    ∃ v, executeStatement host i t w = .ok () v ∧ BeforePass T i K p e F t n V (j + 1) S v := by
  obtain ⟨head, hfirst, heq⟩ := hl.executeStatement_eq host
  have hstands : standsIn i t w = .ok true w := by
    show EStateM.Result.ok ((w.script i).frames.top.openedBy t) w = _
    rw [hw.frames, hl.openedBy_passing hG]
  have hcount : (w.script i).frames.top.loop = some { index := j, bound := some n } := by
    rw [hw.frames, hG.loop]
  let u := w.modifyScript i
    (·.mapTop fun f => { f with loop := some { index := j + 1, bound := some n } })
  have hu : Poised T i K (some t)
      (G.mapTop fun f => { f with loop := some { index := j + 1, bound := some n } }) S u := by
    refine hw.modifyFrames ?_
    unfold Script.mapTop
    rw [hw.frames]
  have hnext : F.Passing t n V (j + 1)
      (G.mapTop fun f => { f with loop := some { index := j + 1, bound := some n } }) :=
    ⟨hG.start, rfl, hG.vars, hG.outer⟩
  have hpass : countPass i w = .ok () u := countPass_of_some hcount
  obtain ⟨v, hfollow, hv⟩ := hl.followCount_of_passing head hnext hu
  refine ⟨v, ?_, hv⟩
  rw [heq]
  unfold executeFor
  rw [hfirst]
  simp only
  rw [if_neg (not_not_intro hl.bound), bind_of_ok hstands]
  show (countPass i >>= fun _ => followCount i t head) w = _
  rw [bind_of_ok hpass, hfollow]

/-- The end of the loop leads back to the header. -/
theorem executeStatement_of_end {u : Statement} (hu : T.statement? e = some u)
    (hw : Poised T i K (some u) F S w) :
    ∃ v, executeStatement host i u w = .ok () v ∧ Poised T i K (some t) F S v := by
  obtain ⟨u', head, hu', hstatement, hhead, hkind⟩ := hl.ending
  obtain rfl : u' = u := Option.some.inj (hu'.symm.trans hu)
  exact ⟨_, hw.executeStatement_of_loopEnd hl.header hu hstatement hhead hkind hl.linked,
    hw.moveTo (some t)⟩

variable (hh : host.Unobtrusive)
include hh

/-- **The header counts from zero when another frame is innermost.** -/
theorem tick_of_new (hV : V .empty) (hw : Poised T i K (some t) F S w)
    (hnew : F.top.openedBy t = false) (hn : w.asUInt ⟨i, bound⟩ = .ok n) :
    ∃ b w', tick host i w = .ok b w' ∧ BeforePass T i K p e F t n V 0 S w' := by
  refine tick_of_poised hh BeforePass.unmoved hw fun v hv _ hscripts => ?_
  refine hl.executeStatement_of_new hV hv hnew ?_
  rw [← hn]
  unfold World.asUInt World.read
  rw [resolveText_congr hscripts]

/-- **The header counts on when its own frame is innermost.** -/
theorem tick_of_passing (hw : PoisedIn T i K (some t) (F.Passing t n V j) S w) :
    ∃ b w', tick host i w = .ok b w' ∧ BeforePass T i K p e F t n V (j + 1) S w' := by
  obtain ⟨G, hG, hw⟩ := hw
  exact tick_of_poised hh BeforePass.unmoved hw fun _ hv _ _ =>
    hl.executeStatement_of_passing hG hv

theorem tick_of_end (hw : Poised T i K (T.statement? e) F S w) :
    ∃ b w', tick host i w = .ok b w' ∧ Poised T i K (some t) F S w' := by
  obtain ⟨u, _, hu, -⟩ := hl.ending
  rw [hu] at hw
  exact tick_of_poised hh Poised.unmoved hw fun _ hv _ _ => hl.executeStatement_of_end hu hv

end Counted

end

end Cadence
