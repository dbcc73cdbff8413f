/-
  LISTING — a loop over a list, statement by statement.

  The header of such a loop tells a first visit from a further one by the innermost frame, and looks
  up the element whose turn it is.  Each of its statements is a change of the script and of nothing
  else; what the change leads to is told here.

  1. **Frames** — in a pass the frame of the loop is innermost, it counts the passes and binds the
     variable to the element (`Frames.Holding`).  Before a pass the header finds that frame, or
     another one if there was no pass yet (`Frames.Awaiting`).

  2. **The header** — leads into the body with the next element, or behind the end if there is none
     (`Listed.executeStatement_of_awaiting`).

  3. **The end** — leads back to the header (`Listed.executeStatement_of_end`).
-/
import Cadence.Proofs.Running.Poised

namespace Cadence

open ScriptM

section

variable {σ ι : Type}

/-! ## Frames -/

/-- Frames in a pass of a loop over a list: that of the loop, which has counted the passes and binds
the variable alone, inside those around the loop. -/
structure Frames.Holding (F : Frames) (t : Statement) (name : String) (j : Nat) (a : Argument)
    (G : Frames) : Prop where
  /-- The innermost frame is that of the loop. -/
  start : G.top.start = some t
  /-- It has counted the passes. -/
  loop : G.top.loop = some { index := j }
  /-- It binds the variable. -/
  vars : ∀ x, G.top.vars.get? x = if name = x then some a else none
  /-- Around it are the frames around the loop. -/
  outer : G.outer = F.toList

/-- Frames before a pass. -/
inductive Frames.Awaiting (F : Frames) (t : Statement) (name : String) : Nat → Frames → Prop where
  /-- Before the first pass another frame is innermost. -/
  | first (hnew : F.top.openedBy t = false) : F.Awaiting t name 0 F
  /-- Before a later one it is that of the pass before. -/
  | again {j : Nat} {a : Argument} {G : Frames} (h : F.Holding t name j a G) :
    F.Awaiting t name (j + 1) G

/-- What a name means in a pass: the variable is the element, and the other names mean what they
mean around the loop. -/
theorem Frames.Holding.lookup {F G : Frames} {t : Statement} {name : String} {j : Nat}
    {a : Argument} (h : F.Holding t name j a G) (x : String) :
    Scope.lookup x G.bindings = if name = x then some a else Scope.lookup x F.bindings := by
  have hbindings : G.bindings = G.top.vars :: F.bindings := by
    unfold Frames.bindings
    rw [Frames.toList, h.outer, List.map_cons]
  rw [hbindings, Scope.lookup, h.vars]
  by_cases hx : name = x
  · rw [if_pos hx, if_pos hx]
  · rw [if_neg hx, if_neg hx]

/-! ## Loops -/

variable {host : Host σ ι} {i : Nat} {T : Tree} {K : Table (Handler Bundled.Command ι)}
  {F G : Frames} {S : List Statement} {w : World σ ι}

/-- A loop of a tree over a list, with its header, the variable and the name of the list. -/
structure Listed (T : Tree) (p e : Nat) (t : Statement) (name list : String) : Prop where
  /-- The header stands at the first position. -/
  header : T.statement? p = some t
  /-- It is a statement. -/
  statement : t.site.kind = .statement
  /-- It begins a loop over the list. -/
  head : ∃ head x l rest, t.head? = some head ∧ head.kind = .forEachStart ∧
    head.children = x :: l :: rest ∧ x.lexeme = some name ∧ l.lexeme = some list
  /-- The end stands at the second position. -/
  ending : ∃ u head, T.statement? e = some u ∧ u.site.kind = .statement ∧ u.head? = some head ∧
    head.kind = .forEnd
  /-- The two belong together. -/
  linked : (p, e) ∈ (Links.ofKinds T.kinds).loopEnds

/-- Before a pass of a loop over a list: in its body with the element, if there is one, or else
behind its end. -/
def BeforeElement (T : Tree) (i : Nat) (K : Table (Handler Bundled.Command ι)) (p e : Nat)
    (F : Frames) (t : Statement) (name : String) (items : List Argument) (j : Nat)
    (S : List Statement) (w : World σ ι) : Prop :=
  match items[j]? with
  | some a => PoisedIn T i K (T.statement? (p + 1)) (F.Holding t name j a) S w
  | none => Poised T i K (T.statement? (e + 1)) F S w

namespace Listed

variable {p e : Nat} {t : Statement} {name list : String} {items : List Argument} {j : Nat}
  (hl : Listed T p e t name list)
include hl

/-- With the count of a pass in the innermost frame the header leads into the body with the element,
or behind the end of the loop. -/
theorem followElement_of_count (head l : Site) (hw : Poised T i K (some t) G S w)
    (hitems : w.lists.get? list = some items) (hstart : G.top.start = some t)
    (hloop : G.top.loop = some { index := j })
    (hvars : ∀ x, name ≠ x → G.top.vars.get? x = none) (houter : G.outer = F.toList) :
    ∃ f, followElement i t head name l list w = .ok () (w.modifyScript i f) ∧
      BeforeElement T i K p e F t name items j S (w.modifyScript i f) := by
  have hcount : ((w.script i).frames.top.loop.map Count.index).getD 0 = j := by
    rw [hw.frames, hloop]
    rfl
  unfold followElement BeforeElement
  rw [script_bind, hcount]
  show ∃ f, (listElement l list j >>= fun element => _) w = _ ∧ _
  rw [bind_of_ok (listElement_of_some hitems l j)]
  cases items[j]? with
  | some a =>
    obtain ⟨hbinds, hout⟩ := (w.script i).frames_setVar name a
    rw [hw.frames] at hbinds hout
    have hset : Poised T i K (some t) ((w.script i).setVar name a).frames S
        (w.modifyScript i (·.setVar name a)) := hw.modifyFrames rfl
    have hholding : F.Holding t name j a ((w.script i).setVar name a).frames := by
      refine ⟨?_, ?_, fun x => ?_, hout.trans houter⟩
      · show (w.script i).frames.top.start = some t
        rw [hw.frames, hstart]
      · show (w.script i).frames.top.loop = some { index := j }
        rw [hw.frames, hloop]
      · rw [hbinds]
        by_cases hx : name = x
        · rw [if_pos hx, if_pos hx]
        · rw [if_neg hx, if_neg hx, hvars x hx]
    rw [← hl.header] at hset
    have hgone := hset.advance
    rw [World.modifyScript_modifyScript] at hgone
    refine ⟨_, ?_, _, hholding, hgone⟩
    rw [← World.modifyScript_modifyScript]
    rfl
  | none =>
    obtain ⟨u, _, hu, -⟩ := hl.ending
    have hclear : Poised T i K (some t) (G.mapTop fun f => { f with vars := f.vars.erase name }) S
        (w.modifyScript i (·.clearVar name)) := by
      refine hw.modifyFrames ?_
      unfold Script.clearVar Script.mapTop
      rw [hw.frames]
    have hout : (G.mapTop fun f => { f with vars := f.vars.erase name }).outer = F.toList := houter
    obtain ⟨f, hexit, hbehind⟩ := hclear.exitLoop_of_linked head hl.header hu hl.linked hout
    rw [World.modifyScript_modifyScript] at hexit hbehind
    exact ⟨_, hexit, hbehind⟩

/-- The header is that of a loop over the list. -/
theorem executeStatement_eq (host : Host σ ι) :
    ∃ head l, executeStatement (σ := σ) (ι := ι) host i t = (do
      if !(← standsIn i t) then
        pushFrame i t
        startCount i none
      else countPass i
      followElement i t head name l list) := by
  obtain ⟨head, x, l, rest, hhead, hkind, hchildren, hx, hlist⟩ := hl.head
  refine ⟨head, l, ?_⟩
  unfold executeStatement
  rw [if_neg (not_not_intro hl.statement), hhead]
  simp only
  unfold executeHead
  rw [hkind]
  simp only
  unfold executeForEach
  rw [hchildren]
  simp only [List.map_cons, hx, hlist]

/-- **The header** leads into the body with the next element, or behind the end if there is none. -/
theorem executeStatement_of_awaiting (hG : F.Awaiting t name j G)
    (hw : Poised T i K (some t) G S w) (hitems : w.lists.get? list = some items) :
    ∃ f, executeStatement host i t w = .ok () (w.modifyScript i f) ∧
      BeforeElement T i K p e F t name items j S (w.modifyScript i f) := by
  obtain ⟨head, l, heq⟩ := hl.executeStatement_eq host
  rw [heq]
  cases hG with
  | first hnew =>
    have hstands : standsIn i t w = .ok false w := by
      show EStateM.Result.ok ((w.script i).frames.top.openedBy t) w = _
      rw [hw.frames, hnew]
    let g : Script ι → Script ι := fun s =>
      (s.pushFrame t).mapTop fun f => { f with loop := some {} }
    have hg : Poised T i K (some t) ((F.push t).mapTop fun f => { f with loop := some {} }) S
        (w.modifyScript i g) := by
      refine hw.modifyFrames ?_
      show ((w.script i).pushFrame t).mapTop _ = _
      unfold Script.pushFrame Script.mapTop
      rw [hw.frames]
    obtain ⟨f, hfollow, hbefore⟩ := hl.followElement_of_count head l (F := F) hg
      hitems rfl rfl (fun x _ => Table.get?_empty x) rfl
    rw [World.modifyScript_modifyScript] at hfollow hbefore
    refine ⟨_, ?_, hbefore⟩
    rw [bind_of_ok hstands, ← hfollow]
    show followElement i t head name l list
      ((w.modifyScript i (·.pushFrame t)).modifyScript i
        (·.mapTop fun f => { f with loop := some {} })) = _
    rw [World.modifyScript_modifyScript]
  | @again j a G h =>
    have hstands : standsIn i t w = .ok true w := by
      show EStateM.Result.ok ((w.script i).frames.top.openedBy t) w = _
      rw [hw.frames, Frames.openedBy_of_start h.start, Tree.same_self hl.header]
    have hcount : (w.script i).frames.top.loop = some { index := j } := by rw [hw.frames, h.loop]
    let g : Script ι → Script ι := (·.mapTop fun f => { f with loop := some { index := j + 1 } })
    have hg : Poised T i K (some t) (G.mapTop fun f => { f with loop := some { index := j + 1 } }) S
        (w.modifyScript i g) := by
      refine hw.modifyFrames ?_
      show (w.script i).mapTop _ = _
      unfold Script.mapTop
      rw [hw.frames]
    have hvars : ∀ x, name ≠ x → G.top.vars.get? x = none := fun x hx => by
      rw [h.vars, if_neg hx]
    obtain ⟨f, hfollow, hbefore⟩ := hl.followElement_of_count head l (F := F) hg
      hitems h.start rfl hvars h.outer
    have hpass : countPass i w = .ok () (w.modifyScript i g) := countPass_of_some hcount
    rw [World.modifyScript_modifyScript] at hfollow hbefore
    refine ⟨_, ?_, hbefore⟩
    rw [bind_of_ok hstands, ← hfollow]
    exact bind_of_ok hpass

/-- **The end** leads back to the header. -/
theorem executeStatement_of_end {u : Statement} (hu : T.statement? e = some u)
    (hw : Poised T i K (some u) G S w) :
    executeStatement host i u w =
      .ok () (w.modifyScript i fun s => { s with cursor := some t }) := by
  obtain ⟨u', head, hu', hstatement, hhead, hkind⟩ := hl.ending
  obtain rfl : u' = u := Option.some.inj (hu'.symm.trans hu)
  exact hw.executeStatement_of_loopEnd hl.header hu hstatement hhead hkind hl.linked

end Listed

end

end Cadence
