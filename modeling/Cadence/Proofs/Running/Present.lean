/-
  PRESENT — a script refers to the tree that it has loaded, and to no other.

  A cursor, a return point and a frame each hold a statement, and a statement carries the number of
  its loading.  They are written from many places: from neighbours and links, from the lines of the
  tree, from the stack of returns, from loop headers, and when a tree is loaded.

  A script is PRESENT when its links are those of its tree and all statements that it holds are its
  tree's (`Script.Present`).  Here is one lemma for each function on scripts: none of them leads out
  of the tree, and loading another one lets go of all that belonged to the one before.
-/
import Cadence.Proofs.Running.Statements

namespace Cadence

/-- A statement belongs to a tree. -/
def Tree.Has (T : Tree) (t : Statement) : Prop := ∃ k, T.statement? k = some t

/-- What comes after a statement of a tree belongs to the tree. -/
theorem Tree.Has.next {T : Tree} {t u : Statement} (h : T.Has t) (hu : t.next? = some u) :
    T.Has u := by
  obtain ⟨k, hk⟩ := h
  rw [Tree.next?_of_statement? hk] at hu
  exact ⟨k + 1, hu⟩

/-- The sites below a place are those of its nodes, in their order. -/
theorem Site.mem_below {place s : Site} {i : Nat} {ns : List Node} :
    s ∈ place.below i ns ↔
      ∃ k n, ns[k]? = some n ∧ s = ⟨n, (place.node, i + k) :: place.above⟩ := by
  induction ns generalizing i with
  | nil => simp [below]
  | cons m ms ih =>
    have shift : ∀ k n, (⟨n, (place.node, i + 1 + k) :: place.above⟩ : Site) =
        ⟨n, (place.node, i + (k + 1)) :: place.above⟩ := by
      intro k n
      rw [Nat.add_right_comm, Nat.add_assoc]
    unfold below
    rw [List.mem_cons, ih]
    constructor
    · rintro (rfl | ⟨k, n, hn, rfl⟩)
      · exact ⟨0, m, rfl, rfl⟩
      · exact ⟨k + 1, n, hn, shift k n⟩
    · rintro ⟨k, n, hn, rfl⟩
      cases k with
      | zero =>
        cases hn
        exact .inl rfl
      | succ k => exact .inr ⟨k, n, hn, (shift k n).symm⟩

/-- The statements of a tree are the children of its root, of this loading. -/
theorem Tree.has_iff {T : Tree} {t : Statement} :
    T.Has t ↔ t.load = T.load ∧ t.site ∈ (Site.root T.root).children := by
  unfold Site.children
  rw [Site.mem_below]
  constructor
  · rintro ⟨k, hk⟩
    obtain ⟨n, hn, rfl⟩ := Tree.statement?_eq_some.mp hk
    refine ⟨rfl, k, n, hn, ?_⟩
    rw [Nat.zero_add]
    rfl
  · rintro ⟨hload, k, n, hn, hsite⟩
    refine ⟨k, Tree.statement?_eq_some.mpr ⟨n, hn, ?_⟩⟩
    obtain ⟨load, site⟩ := t
    rw [Nat.zero_add] at hsite
    cases hload
    cases hsite
    rfl

/-! ## Frames of one tree -/

/-- All frames but the outermost were opened by statements of a tree, and the outermost by none. -/
def Frames.Rooted (T : Tree) (c : Frames) : Prop :=
  ∃ ts : List Statement, c.starts = ts.map some ++ [none] ∧ ∀ t ∈ ts, T.Has t

namespace Frames.Rooted

variable {T : Tree} {c : Frames}

/-- A single frame was opened by none. -/
theorem single {f : Frame} (hf : f.start = none) : (Frames.mk f []).Rooted T :=
  ⟨[], congrArg (fun o => [o]) hf, nofun⟩

theorem push (h : c.Rooted T) {t : Statement} (ht : T.Has t) : (c.push t).Rooted T := by
  obtain ⟨ts, hts, hhas⟩ := h
  refine ⟨t :: ts, ?_, fun u hu => ?_⟩
  · rw [starts_push, hts]
    rfl
  · rcases List.mem_cons.mp hu with rfl | hu
    · exact ht
    · exact hhas u hu

/-- The frames outside the innermost. -/
theorem tail {top f : Frame} {rest : List Frame} (h : (Frames.mk top (f :: rest)).Rooted T) :
    (Frames.mk f rest).Rooted T := by
  obtain ⟨ts, hts, hhas⟩ := h
  have hts : top.start :: (Frames.mk f rest).starts = ts.map some ++ [none] := hts
  cases ts with
  | nil => exact absurd (List.cons.inj hts).2 (List.cons_ne_nil _ _)
  | cons t ts => exact ⟨ts, (List.cons.inj hts).2, fun u hu => hhas u (List.mem_cons_of_mem t hu)⟩

theorem pop (h : c.Rooted T) : c.pop.Rooted T := by
  obtain ⟨top, outer⟩ := c
  cases outer with
  | nil => exact h
  | cons f rest => exact h.tail

theorem bottom (h : c.Rooted T) : c.bottom.Rooted T := by
  obtain ⟨top, outer⟩ := c
  induction outer generalizing top with
  | nil => exact h
  | cons f rest ih =>
    show (Frames.mk ((f :: rest).getLastD top) []).Rooted T
    rw [List.getLastD_cons]
    exact ih f h.tail

theorem mapTop (h : c.Rooted T) {f : Frame → Frame} (hf : ∀ x, (f x).start = x.start) :
    (c.mapTop f).Rooted T := by
  obtain ⟨ts, hts, hhas⟩ := h
  exact ⟨ts, (starts_mapTop c hf).trans hts, hhas⟩

theorem of_from? {t : Statement} {d : Frames} {top : Frame} {outer : List Frame}
    (h : (Frames.mk top outer).Rooted T) (hd : from? t top outer = some d) : d.Rooted T := by
  induction outer generalizing top with
  | nil =>
    unfold from? at hd
    split at hd
    · cases hd
      exact h
    · cases hd
  | cons f rest ih =>
    unfold from? at hd
    split at hd
    · cases hd
      exact h
    · exact ih h.tail hd

theorem unwind (h : c.Rooted T) (t : Statement) (inclusive : Bool) :
    (c.unwind t inclusive).Rooted T := by
  unfold Frames.unwind
  split
  · exact h
  · rename_i d hd
    have hr := h.of_from? hd
    split
    · exact hr.pop
    · exact hr

end Frames.Rooted

/-! ## Scripts that refer to their tree -/

/-- All that a script refers to belongs to its tree. -/
structure Script.Present {ι : Type} (s : Script ι) : Prop where
  /-- The links are those of the tree. -/
  links : s.links = .ofKinds s.tree.kinds
  /-- The cursor is on a statement of the tree, if it is on any. -/
  cursor : ∀ t, s.cursor = some t → s.tree.Has t
  /-- The return points are statements of the tree. -/
  returns : ∀ t ∈ s.returns, s.tree.Has t
  /-- So are the starts of the frames. -/
  frames : s.frames.Rooted s.tree

/-- What a script refers to. -/
def Script.control {ι : Type} (s : Script ι) :
    Tree × Links × Option Statement × List Statement × List (Option Statement) :=
  (s.tree, s.links, s.cursor, s.returns, s.frames.starts)

namespace Script

variable {ι : Type} {s s' : Script ι}

theorem has_tree (s : Script ι) : s.Has s.tree := ⟨rfl, rfl⟩

theorem root_of_tree (h : s'.tree = s.tree) : s'.root = s.root := congrArg Tree.root h

theorem tree_of_control (h : s'.control = s.control) : s'.tree = s.tree := congrArg Prod.fst h

/-- A suspension refers to nothing. -/
theorem Suspends.control {f : Script ι → Script ι} (hf : Suspends f) (s : Script ι) :
    (f s).control = s.control := by
  obtain ⟨activity, deadline, callback, hs⟩ := hf s
  rw [hs]
  rfl

/-- A position of a script is a position of its tree. -/
theorem has_of_statementAt? {k : Nat} {t : Statement} (h : s.statementAt? k = some t) :
    s.tree.Has t :=
  ⟨k, by rw [← s.has_tree.statementAt?]; exact h⟩

/-- Links lead to statements of the tree. -/
theorem has_of_linked? {t u : Statement} {link : Nat → Option Nat}
    (h : s.linked? t link = some u) : s.tree.Has u := by
  obtain ⟨k, _, hk⟩ := Option.bind_eq_some_iff.mp h
  exact has_of_statementAt? hk

/-- Lines lead to statements of the tree that stand there. -/
theorem has_of_statementOn? {line : Int} {t : Statement} (h : s.statementOn? line = some t) :
    s.tree.Has t ∧ t.line = line := by
  unfold statementOn? at h
  obtain ⟨site, hsite, rfl⟩ := Option.map_eq_some_iff.mp h
  obtain ⟨hmem, hline⟩ := List.mem_filter.mp (List.mem_of_getLast? hsite)
  exact ⟨Tree.has_iff.mpr ⟨rfl, hmem⟩, of_decide_eq_true hline⟩

/-- A line that leads nowhere has no statement of the tree. -/
theorem line_ne_of_statementOn? {line : Int} {t : Statement} (h : s.statementOn? line = none)
    (ht : s.tree.Has t) : t.line ≠ line := by
  intro hline
  have hempty := List.getLast?_eq_none_iff.mp (Option.map_eq_none_iff.mp h)
  have hmem : t.site ∈ (Site.root s.root).children.filter fun site => site.line = line :=
    List.mem_filter.mpr ⟨(Tree.has_iff.mp ht).2, decide_eq_true hline⟩
  rw [hempty] at hmem
  cases hmem

namespace Present

theorem of_control (h : s.Present) (hs : s'.control = s.control) : s'.Present := by
  unfold control at hs
  simp only [Prod.mk.injEq] at hs
  obtain ⟨htree, hlinks, hcursor, hreturns, hstarts⟩ := hs
  obtain ⟨ts, hts, hhas⟩ := h.frames
  refine ⟨?_, ?_, ?_, ts, hstarts.trans hts, ?_⟩
  · rw [hlinks, htree, h.links]
  · rw [hcursor, htree]
    exact h.cursor
  · rw [hreturns, htree]
    exact h.returns
  · rw [htree]
    exact hhas

/-- The cursor may go anywhere in the tree. -/
theorem place (h : s.Present) {c : Option Statement} (hc : ∀ t, c = some t → s.tree.Has t) :
    { s with cursor := c }.Present :=
  ⟨h.links, hc, h.returns, h.frames⟩

/-- The frames may be any of the tree. -/
theorem frame (h : s.Present) {c : Frames} (hc : c.Rooted s.tree) :
    { s with frames := c }.Present :=
  ⟨h.links, h.cursor, h.returns, hc⟩

theorem clearTimeout (h : s.Present) : s.clearTimeout.Present :=
  h.of_control (suspends_clearTimeout.control s)

theorem advance (h : s.Present) : s.advance.Present := by
  refine h.clearTimeout.place fun t ht => ?_
  obtain ⟨u, hu, hnext⟩ := Option.bind_eq_some_iff.mp ht
  exact (h.clearTimeout.cursor u hu).next hnext

theorem gotoLine? (h : s.Present) {line : Int} (hs : s.gotoLine? line = some s') : s'.Present := by
  obtain ⟨t, ht, rfl⟩ := Option.map_eq_some_iff.mp hs
  refine ⟨h.links, ?_, fun u hu => ?_, h.frames⟩
  · rintro _ ⟨⟩
    exact (has_of_statementOn? ht).1
  · rcases List.mem_append.mp hu with hu | hu
    · exact h.cursor u (Option.mem_toList.mp hu)
    · exact h.returns u hu

theorem returnFromGoto (h : s.Present) : s.returnFromGoto.Present := by
  unfold Script.returnFromGoto
  split
  · exact h
  · rename_i t rest hr
    refine ⟨h.links, ?_, fun u hu => ?_, h.frames⟩
    · rintro _ ⟨⟩
      exact h.returns t (hr ▸ List.mem_cons_self ..)
    · exact h.returns u (hr ▸ List.mem_cons_of_mem t hu)

theorem reset (h : s.Present) : s.reset.Present :=
  ⟨h.links, fun _ ht => has_of_statementAt? (s := s) ht, nofun, .single rfl⟩

/-- To load a tree lets go of the one before, but for the return points. -/
theorem loadTree (s : Script ι) (root : Node) (load : Nat) :
    { s.loadTree root load with returns := [] }.Present :=
  ⟨rfl, fun _ ht => has_of_statementAt? (s := s.loadTree root load) ht, nofun, .single rfl⟩

/-- And these are dropped when a tree is replaced. -/
theorem replace (s : Script ι) (root : Node) : (s.replace root).Present :=
  (loadTree s root (s.load + 1)).of_control rfl

theorem start (name : String) (root : Node) : (Script.start (ι := ι) name root).Present :=
  (loadTree { name } root 0).of_control rfl

/-- Where there is no script, there is nothing to refer to. -/
theorem default : (Inhabited.default : Script ι).Present :=
  ⟨rfl, nofun, nofun, .single rfl⟩

/-- The further branches of a choice are statements of the tree that begin as branches do. -/
theorem of_mem_branches (h : s.Present) {t u : Statement} (hu : u ∈ s.branches t) :
    s.tree.Has u ∧ ∀ head, u.head? = some head → head.kind.isBranch = true := by
  unfold branches at hu
  split at hu
  · cases hu
  · obtain ⟨k, hk, hat⟩ := List.mem_filterMap.mp hu
    rw [s.has_tree.statementAt?] at hat
    rw [h.links] at hk
    obtain ⟨⟨k, c⟩, hmem, rfl⟩ := List.mem_map.mp hk
    obtain ⟨hbranch, -⟩ := Links.mem_branches.mp (List.mem_filter.mp hmem).1
    refine ⟨⟨k, hat⟩, fun head hhead => ?_⟩
    have hkind := Tree.holds_of_head? hat hhead Kind.isBranch
    rw [← hkind]
    exact hbranch

end Present

end Script

end Cadence
