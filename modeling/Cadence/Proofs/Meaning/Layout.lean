/-
  LAYOUT — a structured program in its list of statements.

  A part of a program STANDS at a position of a tree when its statements are there, one after the
  other (`Placed`).  What the pass of the links finds for it is told by the structure:

  1. **Stacks** — whatever stands in between, a part leaves open what was open before it, for each
     family of openings and ends (`Block.openAt_size`).  So the stack of a family at a position in
     the middle of a program is told by the parts around the position.

  2. **Branches** — the branches inside a part belong to choices inside the part
     (`Block.gathered_eq_nil`), so the branches of a choice are those of its own tail.

  3. **Links** — hence the links of a choice and of a loop lead where the structure says
     (`Links.branchesOf_choice`, `Links.loopEnd?_loop`, and the like).
-/
import Cadence.Proofs.Meaning.Program
import Cadence.Proofs.Nesting.Counting

namespace Cadence

/-! ## Links, by the stacks -/

namespace Links

variable {ks : List (Option Kind)}

theorem choiceEnd?_eq_some_iff {c e : Nat} :
    (ofKinds ks).choiceEnd? c = some e ↔
      holds Family.choices.closes ks e = true ∧ (Family.choices.openAt ks e).head? = some c := by
  rw [choiceEnd?, lookup_of_graph choiceEnds_graph, ← choiceEnds_graph, mem_choiceEnds]

theorem branchEnd?_eq {b c : Nat} (hb : holds Kind.isBranch ks b = true)
    (hc : (Family.choices.openAt ks b).head? = some c) :
    (ofKinds ks).branchEnd? b = (ofKinds ks).choiceEnd? c := by
  rw [branchEnd?, choiceOf?_eq_some_iff.mpr (mem_branches.mpr ⟨hb, hc⟩), Option.bind_some]

theorem loopEnd?_eq_some_iff {h e : Nat} :
    (ofKinds ks).loopEnd? h = some e ↔ (h, e) ∈ (ofKinds ks).loopEnds := by
  rw [loopEnd?, lookup_of_graph loopEnds_graph, ← loopEnds_graph]

theorem loopHeader?_eq_some_iff {h e : Nat} :
    (ofKinds ks).loopHeader? e = some h ↔ (h, e) ∈ (ofKinds ks).loopEnds := by
  rw [loopHeader?, find?_snd_eq_some_iff fun c c' hc hc' => loopEnds_unique hc hc']

/-- A break leaves the innermost loop by the end that closes it. -/
theorem breakTarget?_eq_some {b h e : Nat} (hb : holds (· = .breakLoop) ks b = true)
    (hin : (Family.loops.openAt ks b).head? = some h)
    (hc : holds Family.loops.closes ks e = true)
    (ht : (Family.loops.openAt ks e).head? = some h) :
    (ofKinds ks).breakTarget? b = some (h, e) := by
  have hbe : b < e := by
    rcases Nat.lt_trichotomy b e with hlt | heq | hgt
    · exact hlt
    · -- a break is no end
      subst heq
      rw [not_holds_of_holds (fun k hk => (Family.loops_of_breakLoop k hk).2) hb] at hc
      exact absurd hc (by decide)
    · -- the loop would be closed already
      exact absurd (List.mem_of_head? hin) (Family.not_mem_openAt_of_closed hc ht hgt)
  rw [breakTarget?, lookup_of_graph breaks_graph, ← breaks_graph, mem_breaks]
  refine ⟨hbe, ?_, hc, ht⟩
  rw [Linking.breaksOut, hb, hin]
  simp

theorem breakTarget?_eq_none {b : Nat} (hin : Family.loops.openAt ks b = []) :
    (ofKinds ks).breakTarget? b = none := by
  cases ht : (ofKinds ks).breakTarget? b with
  | none => rfl
  | some e =>
    obtain ⟨h, j⟩ := e
    rw [breakTarget?, lookup_of_graph breaks_graph, ← breaks_graph, mem_breaks, Linking.breaksOut,
      hin] at ht
    simp at ht

theorem continueTarget?_eq {k : Nat} (hk : holds (· = .continueLoop) ks k = true) :
    (ofKinds ks).continueTarget? k = (Family.loops.openAt ks k).head? := by
  apply Option.ext
  intro h
  rw [continueTarget?, lookup_of_graph continues_graph, ← continues_graph, mem_continues]
  exact ⟨fun h => h.2, fun h => ⟨hk, h⟩⟩

end Links

/-! ## Parts at a position -/

/-- Some statements stand in a tree from a position on. -/
def Placed (T : Tree) (p : Nat) (nodes : List Node) : Prop :=
  ∃ before after, T.root.children = before ++ nodes ++ after ∧ before.length = p

namespace Placed

variable {T : Tree} {p : Nat}

theorem append {a b : List Node} (h : Placed T p (a ++ b)) :
    Placed T p a ∧ Placed T (p + a.length) b := by
  obtain ⟨before, after, he, hp⟩ := h
  constructor
  · exact ⟨before, b ++ after, by rw [he]; simp, hp⟩
  · exact ⟨before ++ a, after, by rw [he]; simp, by rw [List.length_append, hp]⟩

theorem cons {n : Node} {ns : List Node} (h : Placed T p (n :: ns)) :
    T.root.children[p]? = some n ∧ Placed T (p + 1) ns := by
  obtain ⟨before, after, he, rfl⟩ := h
  constructor
  · rw [he, List.append_assoc, List.getElem?_append_right (Nat.le_refl _), Nat.sub_self]
    rfl
  · exact ⟨before ++ [n], after, by rw [he]; simp, by simp⟩

theorem length_le {nodes : List Node} (h : Placed T p nodes) :
    p + nodes.length ≤ T.kinds.length := by
  obtain ⟨before, after, he, rfl⟩ := h
  rw [Tree.kinds, List.length_map, he]
  simp only [List.length_append]
  omega

/-- A line stands at a position as the statement of the position. -/
theorem statement? {k : Kind} {l : Line k} {ns : List Node} (h : Placed T p (l.node :: ns)) :
    T.statement? p = some (l.at T p) :=
  Tree.statement?_eq_some.mpr ⟨l.node, h.cons.1, rfl⟩

theorem kind {k : Kind} {l : Line k} {ns : List Node} (h : Placed T p (l.node :: ns)) :
    T.kinds[p]?.join = some k := by
  rw [Tree.kinds, List.getElem?_map, h.cons.1, Option.map_some, Option.join_some, Script.headKind,
    l.children, List.head?_cons, Option.map_some, l.kind]

theorem holds {k : Kind} {l : Line k} {ns : List Node} (h : Placed T p (l.node :: ns))
    (f : Kind → Bool) : holds f T.kinds p = f k := by
  rw [Cadence.holds, h.kind, Option.any_some]

end Placed

/-- The first token of a line. -/
theorem Line.head? {k : Kind} (l : Line k) (T : Tree) (p : Nat) :
    (l.at T p).head? = some (l.head T p) := by
  show (l.node.children[0]?).map _ = _
  rw [l.children]
  rfl

/-! ## Sizes -/

theorem Block.size_cons (s : Stmt) (rest : Block) :
    (Block.cons s rest).size = s.size + rest.size := by
  rw [Block.size, Block.flatten, List.length_append]
  rfl

theorem Stmt.size_choice (l : Line .ifStart) (body : Block) (tail : Tail) :
    (Stmt.choice l body tail).size = 1 + body.size + tail.size := by
  rw [Stmt.size, Stmt.flatten, List.length_cons, List.length_append, Block.size, Tail.size]
  omega

theorem Stmt.size_loop (sort : Loop) (l : Line sort.start) (body : Block)
    (last : Line sort.finish) : (Stmt.loop sort l body last).size = 1 + body.size + 1 := by
  rw [Stmt.size, Stmt.flatten, List.length_cons, List.length_append, Block.size,
    List.length_singleton]
  omega

theorem Tail.size_elseIf (l : Line .elseIf) (body : Block) (rest : Tail) :
    (Tail.elseIf l body rest).size = 1 + body.size + rest.size := by
  rw [Tail.size, Tail.flatten, List.length_cons, List.length_append, Block.size, Tail.size]
  omega

theorem Tail.size_otherwise (l : Line .elseStart) (body : Block) (last : Line .ifEnd) :
    (Tail.otherwise l body last).size = 1 + body.size + 1 := by
  rw [Tail.size, Tail.flatten, List.length_cons, List.length_append, Block.size,
    List.length_singleton]
  omega

/-- A tail is done one statement after its end. -/
theorem Tail.endAt_add_one (p : Nat) : (t : Tail) → t.endAt p + 1 = p + t.size
  | .close _ => rfl
  | .elseIf l body rest => by
    rw [Tail.endAt, Tail.endAt_add_one _ rest, Tail.size_elseIf]
    omega
  | .otherwise l body last => by
    rw [Tail.endAt, Tail.size_otherwise]
    omega

/-- The end of a choice does not come before its tail. -/
theorem Tail.le_endAt (p : Nat) : (t : Tail) → p ≤ t.endAt p
  | .close _ => Nat.le_refl p
  | .elseIf _ body rest => by
    have := Tail.le_endAt (p + 1 + body.size) rest
    rw [Tail.endAt]
    omega
  | .otherwise _ body _ => by
    rw [Tail.endAt]
    omega

/-! ## Where the parts of a part stand -/

namespace Placed

variable {T : Tree} {p : Nat}

theorem choice {l : Line .ifStart} {body : Block} {tail : Tail}
    (h : Placed T p (Stmt.choice l body tail).flatten) :
    Placed T (p + 1) body.flatten ∧ Placed T (p + 1 + body.size) tail.flatten := by
  rw [Stmt.flatten] at h
  exact h.cons.2.append

theorem loop {sort : Loop} {l : Line sort.start} {body : Block} {last : Line sort.finish}
    (h : Placed T p (Stmt.loop sort l body last).flatten) :
    Placed T (p + 1) body.flatten ∧ Placed T (p + 1 + body.size) [last.node] := by
  rw [Stmt.flatten] at h
  exact h.cons.2.append

theorem elseIf {l : Line .elseIf} {body : Block} {rest : Tail}
    (h : Placed T p (Tail.elseIf l body rest).flatten) :
    Placed T (p + 1) body.flatten ∧ Placed T (p + 1 + body.size) rest.flatten := by
  rw [Tail.flatten] at h
  exact h.cons.2.append

theorem otherwise {l : Line .elseStart} {body : Block} {last : Line .ifEnd}
    (h : Placed T p (Tail.otherwise l body last).flatten) :
    Placed T (p + 1) body.flatten ∧ Placed T (p + 1 + body.size) [last.node] := by
  rw [Tail.flatten] at h
  exact h.cons.2.append

theorem block {s : Stmt} {rest : Block} (h : Placed T p (Block.cons s rest).flatten) :
    Placed T p s.flatten ∧ Placed T (p + s.size) rest.flatten := by
  rw [Block.flatten] at h
  exact h.append

/-- The end of a choice stands where the tail says. -/
theorem last {p : Nat} : {t : Tail} → Placed T p t.flatten → Placed T (t.endAt p) [t.last.node]
  | .close _, h => h
  | .elseIf _ body rest, h => by
    show Placed T (rest.endAt (p + 1 + body.size)) [rest.last.node]
    exact last h.elseIf.2
  | .otherwise _ _ _, h => h.otherwise.2

end Placed

/-! ## Stacks -/

/-- A command begins and ends nothing. -/
theorem Family.blocks_apart (k : Kind) (h : k.asksCommand = true) :
    blocks.opens k = false ∧ blocks.closes k = false := by
  cases k <;> first | exact ⟨rfl, rfl⟩ | exact absurd h (by decide)

/-- A command is no branch. -/
theorem Kind.not_isBranch_of_asks (k : Kind) (h : k.asksCommand = true) : k.isBranch = false := by
  cases k <;> first | rfl | exact absurd h (by decide)

namespace Family.Part

variable {g : Family} {T : Tree} {p : Nat}

theorem opens_eq_false (hg : g.Part) {k : Kind} (hk : blocks.opens k = false) :
    g.opens k = false := by
  cases ho : g.opens k with
  | false => rfl
  | true => exact hk.symm.trans (hg.opens k ho) |>.symm

theorem closes_eq_false (hg : g.Part) {k : Kind} (hk : blocks.closes k = false) :
    g.closes k = false := by
  cases hc : g.closes k with
  | false => rfl
  | true => exact hk.symm.trans (hg.closes k hc) |>.symm

/-- What is open after a line. -/
theorem openAt_line {k : Kind} {l : Line k} {ns : List Node} (h : Placed T p (l.node :: ns)) :
    g.openAt T.kinds (p + 1) =
      if g.opens k then p :: g.openAt T.kinds p
      else if g.closes k then (g.openAt T.kinds p).tail
      else g.openAt T.kinds p := by
  rw [Family.openAt, h.holds, h.holds]

/-- A line that begins and ends nothing leaves open what was open. -/
theorem openAt_plain (hg : g.Part) {k : Kind} {l : Line k} {ns : List Node}
    (h : Placed T p (l.node :: ns)) (ho : blocks.opens k = false) (hc : blocks.closes k = false) :
    g.openAt T.kinds (p + 1) = g.openAt T.kinds p := by
  rw [openAt_line h, hg.opens_eq_false ho, hg.closes_eq_false hc, if_neg (by decide),
    if_neg (by decide)]

/-- An end closes what its start opened, when between them nothing is left open or closed. -/
theorem openAt_matched (hg : g.Part) {o c : Kind} {start : Line o} {last : Line c} {e : Nat}
    {ns ms : List Node} (hs : Placed T p (start.node :: ns)) (he : Placed T e (last.node :: ms))
    (hc : blocks.opens c = false) (ho : blocks.closes o = false) (hm : g.opens o = g.closes c)
    (hin : g.openAt T.kinds e = g.openAt T.kinds (p + 1)) :
    g.openAt T.kinds (e + 1) = g.openAt T.kinds p := by
  rw [openAt_line he, hin, openAt_line hs, ← hm, hg.opens_eq_false hc, hg.closes_eq_false ho]
  cases g.opens o with
  | true => rfl
  | false => rfl

/-- The two ends of a loop go together for every family. -/
theorem loop_matched (hg : g.Part) (sort : Loop) : g.opens sort.start = g.closes sort.finish := by
  cases sort with
  | guarded => exact hg.whiles _ _ rfl rfl
  | counted => exact hg.fors _ _ rfl rfl
  | listed => exact hg.fors _ _ rfl rfl

end Family.Part

section

variable {g : Family} {T : Tree}

mutual
/-- A part leaves open what was open before it. -/
theorem Stmt.openAt_size (hg : g.Part) {p : Nat} : (s : Stmt) → Placed T p s.flatten →
    g.openAt T.kinds (p + s.size) = g.openAt T.kinds p
  | .command asks l, h =>
    hg.openAt_plain h (Family.blocks_apart _ asks).1 (Family.blocks_apart _ asks).2
  | .stop l, h => hg.openAt_plain h rfl rfl
  | .breakLoop l, h => hg.openAt_plain h rfl rfl
  | .continueLoop l, h => hg.openAt_plain h rfl rfl
  | .choice l body tail, h => by
    have hb := Block.openAt_size hg body h.choice.1
    have ht := Tail.openAt_endAt hg tail h.choice.2
    have he := tail.endAt_add_one (p + 1 + body.size)
    rw [show p + (Stmt.choice l body tail).size = tail.endAt (p + 1 + body.size) + 1 by
      rw [Stmt.size_choice]; omega]
    exact hg.openAt_matched h h.choice.2.last rfl rfl (hg.choices _ _ rfl rfl) (ht.trans hb)
  | .loop sort l body last, h => by
    have hb := Block.openAt_size hg body h.loop.1
    rw [show p + (Stmt.loop sort l body last).size = p + 1 + body.size + 1 by
      rw [Stmt.size_loop]; omega]
    refine hg.openAt_matched h h.loop.2 ?_ ?_ (hg.loop_matched sort) hb
    · cases sort <;> rfl
    · cases sort <;> rfl

theorem Block.openAt_size (hg : g.Part) {p : Nat} : (b : Block) → Placed T p b.flatten →
    g.openAt T.kinds (p + b.size) = g.openAt T.kinds p
  | .nil, _ => rfl
  | .cons s rest, h => by
    rw [Block.size_cons, ← Nat.add_assoc, Block.openAt_size hg rest h.block.2,
      Stmt.openAt_size hg s h.block.1]

/-- At the end of a choice the same is open as at the beginning of its tail. -/
theorem Tail.openAt_endAt (hg : g.Part) {p : Nat} : (t : Tail) → Placed T p t.flatten →
    g.openAt T.kinds (t.endAt p) = g.openAt T.kinds p
  | .close _, _ => rfl
  | .elseIf l body rest, h => by
    rw [Tail.endAt, Tail.openAt_endAt hg rest h.elseIf.2, Block.openAt_size hg body h.elseIf.1]
    exact hg.openAt_plain h rfl rfl
  | .otherwise l body last, h => by
    rw [Tail.endAt, Block.openAt_size hg body h.otherwise.1]
    exact hg.openAt_plain h rfl rfl
end

/-- In a choice the choice is innermost, up to its tail. -/
theorem openAt_choice {p : Nat} {l : Line .ifStart} {body : Block} {tail : Tail}
    (h : Placed T p (Stmt.choice l body tail).flatten) :
    Family.choices.openAt T.kinds (p + 1 + body.size) = p :: Family.choices.openAt T.kinds p := by
  rw [Block.openAt_size Family.choices_part body h.choice.1, Family.Part.openAt_line h]
  exact if_pos rfl

end

/-! ## Branches -/

/-- The positions of the further branches of a choice, when its tail begins at a position. -/
def Tail.branches (p : Nat) : Tail → List Nat
  | .close _ => []
  | .elseIf _ body rest => p :: rest.branches (p + 1 + body.size)
  | .otherwise _ _ _ => [p]

/-- The branches that the pass gives to a choice, among so many statements from a position on. -/
def gathered (ks : List (Option Kind)) (c a n : Nat) : List Nat :=
  (List.range' a n).filter fun k =>
    holds Kind.isBranch ks k && (Family.choices.openAt ks k).head? = some c

section

variable {ks : List (Option Kind)} {c : Nat}

theorem gathered_add (a m n : Nat) :
    gathered ks c a (m + n) = gathered ks c a m ++ gathered ks c (a + m) n := by
  unfold gathered
  rw [← List.filter_append, List.range'_append_1]

theorem gathered_eq_nil {a n : Nat}
    (h : ∀ k, a ≤ k → k < a + n → (Family.choices.openAt ks k).head? ≠ some c) :
    gathered ks c a n = [] := by
  unfold gathered
  refine List.filter_eq_nil_iff.mpr fun k hk hb => ?_
  rw [List.mem_range'_1] at hk
  rw [Bool.and_eq_true, decide_eq_true_eq] at hb
  exact h k hk.1 hk.2 hb.2

/-- One statement is a branch of the choice or not. -/
theorem gathered_one (a : Nat) :
    gathered ks c a 1 =
      if holds Kind.isBranch ks a && (Family.choices.openAt ks a).head? = some c then [a]
      else [] := by
  unfold gathered
  rw [List.range'_one, List.filter_cons, List.filter_nil]

end

section

variable {T : Tree} {c : Nat}

/-- A line that is no branch is nobody's branch. -/
theorem gathered_line {p : Nat} {k : Kind} {l : Line k} {ns : List Node}
    (h : Placed T p (l.node :: ns)) (hk : k.isBranch = false) : gathered T.kinds c p 1 = [] := by
  rw [gathered_one, h.holds, hk, Bool.false_and, if_neg (by decide)]

mutual
/-- The branches inside a part belong to choices inside the part. -/
theorem Stmt.gathered_eq_nil {p : Nat} (hc : c < p) : (s : Stmt) → Placed T p s.flatten →
    gathered T.kinds c p s.size = []
  | .command asks l, h => gathered_line h (Kind.not_isBranch_of_asks _ asks)
  | .stop l, h => gathered_line h rfl
  | .breakLoop l, h => gathered_line h rfl
  | .continueLoop l, h => gathered_line h rfl
  | .choice l body tail, h => by
    have hin : (Family.choices.openAt T.kinds (p + 1 + body.size)).head? ≠ some c := by
      rw [openAt_choice h]
      intro hh
      have : p = c := Option.some.inj hh
      omega
    rw [Stmt.size_choice, gathered_add, gathered_add, gathered_line h rfl,
      Block.gathered_eq_nil (by omega) body h.choice.1,
      show p + (1 + body.size) = p + 1 + body.size by omega,
      Tail.gathered_eq (by omega) tail h.choice.2, if_neg hin]
    rfl
  | .loop sort l body last, h => by
    have hs : sort.start.isBranch = false ∧ sort.finish.isBranch = false := by
      cases sort <;> exact ⟨rfl, rfl⟩
    rw [Stmt.size_loop, gathered_add, gathered_add, gathered_line h hs.1,
      Block.gathered_eq_nil (by omega) body h.loop.1,
      show p + (1 + body.size) = p + 1 + body.size by omega, gathered_line h.loop.2 hs.2]
    rfl

theorem Block.gathered_eq_nil {p : Nat} (hc : c < p) : (b : Block) → Placed T p b.flatten →
    gathered T.kinds c p b.size = []
  | .nil, _ => rfl
  | .cons s rest, h => by
    rw [Block.size_cons, gathered_add, Stmt.gathered_eq_nil hc s h.block.1,
      Block.gathered_eq_nil (by omega) rest h.block.2]
    rfl

/-- The branches of a tail belong to the choice that is innermost where the tail begins. -/
theorem Tail.gathered_eq {p : Nat} (hc : c < p) : (t : Tail) → Placed T p t.flatten →
    gathered T.kinds c p t.size =
      if (Family.choices.openAt T.kinds p).head? = some c then t.branches p else []
  | .close l, h => by
    rw [show (Tail.close l).size = 1 from rfl, gathered_line h rfl]
    exact (ite_self _).symm
  | .elseIf l body rest, h => by
    have hsame : Family.choices.openAt T.kinds (p + 1 + body.size) =
        Family.choices.openAt T.kinds p := by
      rw [Block.openAt_size Family.choices_part body h.elseIf.1]
      exact Family.choices_part.openAt_plain h rfl rfl
    rw [Tail.size_elseIf, gathered_add, gathered_add, gathered_one, h.holds,
      Block.gathered_eq_nil (by omega) body h.elseIf.1,
      show p + (1 + body.size) = p + 1 + body.size by omega,
      Tail.gathered_eq (by omega) rest h.elseIf.2, hsame]
    -- the line of the branch itself, and then the branches behind it, ask for the same choice
    by_cases hh : (Family.choices.openAt T.kinds p).head? = some c
    · rw [if_pos (by rw [hh, decide_eq_true rfl]; rfl), if_pos hh, if_pos hh]
      rfl
    · rw [if_neg (by simp [hh]), if_neg hh, if_neg hh]
      rfl
  | .otherwise l body last, h => by
    rw [Tail.size_otherwise, gathered_add, gathered_add, gathered_one, h.holds,
      Block.gathered_eq_nil (by omega) body h.otherwise.1,
      show p + (1 + body.size) = p + 1 + body.size by omega, gathered_line h.otherwise.2 rfl]
    by_cases hh : (Family.choices.openAt T.kinds p).head? = some c
    · rw [if_pos (by rw [hh, decide_eq_true rfl]; rfl), if_pos hh]
      rfl
    · rw [if_neg (by simp [hh]), if_neg hh]
      rfl
end

end

/-! ## The links of a choice and of a loop -/

namespace Links

variable {T : Tree} {p : Nat}

/-- The end of a choice, from anywhere in its tail. -/
theorem choiceEnd?_tail {c : Nat} {t : Tail} (h : Placed T p t.flatten)
    (hc : (Family.choices.openAt T.kinds p).head? = some c) :
    (ofKinds T.kinds).choiceEnd? c = some (t.endAt p) := by
  refine choiceEnd?_eq_some_iff.mpr ⟨h.last.holds _, ?_⟩
  rw [Tail.openAt_endAt Family.choices_part t h, hc]

/-- The branches of a choice are those of its tail. -/
theorem branchesOf_choice {l : Line .ifStart} {body : Block} {tail : Tail}
    (h : Placed T p (Stmt.choice l body tail).flatten) :
    (ofKinds T.kinds).branchesOf p = tail.branches (p + 1 + body.size) := by
  have he := tail.endAt_add_one (p + 1 + body.size)
  have hlen := h.choice.2.length_le
  have hin : (Family.choices.openAt T.kinds (p + 1 + body.size)).head? = some p := by
    rw [openAt_choice h, List.head?_cons]
  have hcl : holds Family.choices.closes T.kinds (tail.endAt (p + 1 + body.size)) = true :=
    h.choice.2.last.holds _
  have hct : (Family.choices.openAt T.kinds (tail.endAt (p + 1 + body.size))).head? = some p := by
    rw [Tail.openAt_endAt Family.choices_part tail h.choice.2, hin]
  obtain ⟨after, ha⟩ : ∃ after, T.kinds.length = p + 1 + body.size + tail.size + after :=
    ⟨_, (Nat.add_sub_cancel' hlen).symm⟩
  rw [branchesOf_eq_filter, List.range_eq_range', ha]
  show gathered T.kinds p 0 (p + 1 + body.size + tail.size + after) = _
  rw [gathered_add, gathered_add, gathered_add, Nat.zero_add, Nat.zero_add, Nat.zero_add,
    Block.gathered_eq_nil (Nat.lt_succ_self p) body h.choice.1,
    Tail.gathered_eq (by omega) tail h.choice.2, if_pos hin]
  -- before the choice it is not open yet, and after its end it is not open any more
  rw [gathered_eq_nil, gathered_eq_nil]
  · simp
  · intro k hk _ hh
    exact Family.not_mem_openAt_of_closed hcl hct (by omega) (List.mem_of_head? hh)
  · intro k _ hk hh
    have := (Family.mem_openAt (List.mem_of_head? hh)).1
    omega

/-- At its end a loop is innermost, for every family that it is of. -/
theorem head?_openAt_loop {g : Family} (hg : g.Part) {sort : Loop} {l : Line sort.start}
    {body : Block} {last : Line sort.finish}
    (h : Placed T p (Stmt.loop sort l body last).flatten) (ho : g.opens sort.start = true) :
    holds g.closes T.kinds (p + 1 + body.size) = true ∧
      (g.openAt T.kinds (p + 1 + body.size)).head? = some p := by
  constructor
  · rw [h.loop.2.holds, ← hg.loop_matched, ho]
  · rw [Block.openAt_size hg body h.loop.1, Family.Part.openAt_line h, if_pos ho, List.head?_cons]

theorem mem_loopEnds_loop {sort : Loop} {l : Line sort.start} {body : Block}
    {last : Line sort.finish} (h : Placed T p (Stmt.loop sort l body last).flatten) :
    (p, p + 1 + body.size) ∈ (ofKinds T.kinds).loopEnds := by
  rw [mem_loopEnds]
  cases sort with
  | guarded => exact .inl (head?_openAt_loop Family.whiles_part h rfl)
  | counted => exact .inr (head?_openAt_loop Family.fors_part h rfl)
  | listed => exact .inr (head?_openAt_loop Family.fors_part h rfl)

end Links

end Cadence
