/-
  GROWING trees: one node after another is put below a node that is there.

  Here a tree is not a term.  It is a row of nodes in the order in which they were made; each holds
  the numbers of its children and, noted when it was put there and never again, the number of its
  parent and its position there.  Any node may get one more child at any time.

  1. **Pushing** — the crux is what one push keeps (`Linked.push`): a node is among the children of
     a place, at a position, exactly if this is what was noted with it, and a parent is older than
     its children.  So it holds of all trees that pushes make (`Grown.linked`).

  2. **Reading** — since children are younger, going down comes to an end: a tree can be walked
     through (`walk`), and be read off as a term (`node`, `tree`, `site`).

  3. **Links** — the notes obey the laws of navigation (`Linked.laws`), and the sites of the term
     that is read off mirror the nodes (`Linked.mirrors`).

  4. **Every tree** — pushing a node and then its children, each in the same way, makes the tree that
     a term says (`ofNode`, `tree_ofNode`).

  The headline is `GrowingTree.navigated`.
-/
import Cadence.Proofs.Trees.Navigating
import Cadence.Tree.Builder

namespace Cadence

/-- A node among others. -/
structure GrowingTree.Entry where
  /-- What the node stands for. -/
  kind : Kind
  /-- The text of the node, if it has one. -/
  lexeme : Option String := none
  /-- The line that the node stands on. -/
  line : Int := 0
  /-- The parent and the position there, noted when the node was put below it. -/
  above : Option (Nat × Nat) := none
  /-- The children, in order. -/
  children : List Nat := []
deriving Repr, Inhabited

/-- A tree that grows: its nodes, in the order in which they were made. -/
structure GrowingTree where
  /-- The nodes. -/
  entries : List GrowingTree.Entry
deriving Repr

namespace GrowingTree

/-! ## Nodes and links -/

/-- How many nodes there are. -/
def size (t : GrowingTree) : Nat := t.entries.length

/-- The node with a number. -/
def entry (t : GrowingTree) (k : Nat) : Entry := t.entries[k]?.getD default

/-- The children of a node, in order. -/
def children (t : GrowingTree) (k : Nat) : List Nat := (t.entry k).children

/-- The parent of a node and the position there. -/
def above? (t : GrowingTree) (k : Nat) : Option (Nat × Nat) := (t.entry k).above

/-- The parent. -/
def parent? (t : GrowingTree) (k : Nat) : Option Nat := (t.above? k).map Prod.fst

/-- The position that was noted when the node was put below its parent. -/
def index? (t : GrowingTree) (k : Nat) : Option Nat := (t.above? k).map Prod.snd

/-- The first child. -/
def firstChild? (t : GrowingTree) (k : Nat) : Option Nat := (t.children k)[0]?

/-- The next node under the same parent. -/
def next? (t : GrowingTree) (k : Nat) : Option Nat :=
  match t.above? k with
  | none => none
  | some (p, i) => (t.children p)[i + 1]?

/-- The node before under the same parent. -/
def prev? (t : GrowingTree) (k : Nat) : Option Nat :=
  match t.above? k with
  | some (p, i + 1) => (t.children p)[i]?
  | _ => none

/-! ## Pushing -/

/-- A tree of one node. -/
def plant (kind : Kind) (lexeme : Option String := none) (line : Int := 0) : GrowingTree :=
  ⟨[{ kind, lexeme, line }]⟩

/-- Makes a node and puts it behind the children of another; its line is that of its parent if none
is given. -/
def push (t : GrowingTree) (p : Nat) (kind : Kind) (lexeme : Option String := none)
    (line : Option Int := none) : GrowingTree :=
  ⟨t.entries.modify p (fun e => { e with children := e.children ++ [t.size] })
    ++ [{ kind, lexeme, line := line.getD (t.entry p).line,
          above := some (p, (t.children p).length) }]⟩

/-- Trees made by pushing, below any nodes in any order. -/
inductive Grown : GrowingTree → Prop where
  /-- At first there is one node. -/
  | plant (kind : Kind) (lexeme : Option String) (line : Int) : Grown (plant kind lexeme line)
  /-- A node is put below one that is there. -/
  | push {t : GrowingTree} (h : Grown t) {p : Nat} (hp : p < t.size) (kind : Kind)
      (lexeme : Option String) (line : Option Int) : Grown (t.push p kind lexeme line)

section Pushing

variable {t : GrowingTree} {p : Nat} (kind : Kind) (lexeme : Option String) (line : Option Int)

@[simp] theorem size_push : (t.push p kind lexeme line).size = t.size + 1 := by
  simp [push, size]

/-- A push adds a node, changes its parent, and nothing else. -/
theorem entry_push (hp : p < t.size) (k : Nat) :
    (t.push p kind lexeme line).entry k =
      if k = t.size then
        { kind, lexeme, line := line.getD (t.entry p).line,
          above := some (p, (t.children p).length) }
      else if k = p then { t.entry p with children := t.children p ++ [t.size] }
      else t.entry k := by
  unfold size at *
  obtain hlt | rfl | hgt := Nat.lt_trichotomy k t.entries.length
  · rw [if_neg (Nat.ne_of_lt hlt)]
    by_cases hkp : k = p
    · subst hkp
      simp [push, entry, children, size, List.getElem?_append_left, hlt]
    · simp [push, entry, List.getElem?_append_left, hlt, hkp, Ne.symm hkp]
  · simp [push, entry, children]
  · have hnone : t.entries[k]? = none := List.getElem?_eq_none (Nat.le_of_lt hgt)
    have hmore : (t.push p kind lexeme line).entries[k]? = none := by
      refine List.getElem?_eq_none ?_
      simp [push]
      omega
    rw [if_neg (Nat.ne_of_gt hgt), if_neg (by omega)]
    simp [entry, hnone, hmore]

theorem children_eq_nil {k : Nat} (hk : t.size ≤ k) : t.children k = [] := by
  unfold children entry
  rw [List.getElem?_eq_none hk]
  rfl

theorem above?_eq_none {k : Nat} (hk : t.size ≤ k) : t.above? k = none := by
  unfold above? entry
  rw [List.getElem?_eq_none hk]
  rfl

theorem children_push (hp : p < t.size) (k : Nat) :
    (t.push p kind lexeme line).children k =
      if k = p then t.children p ++ [t.size] else t.children k := by
  unfold children
  rw [entry_push kind lexeme line hp]
  by_cases hk : k = t.size
  · rw [if_pos hk, if_neg (by omega)]
    exact (children_eq_nil (Nat.le_of_eq hk.symm)).symm
  · rw [if_neg hk]
    split
    · rfl
    · rfl

theorem above?_push (hp : p < t.size) (k : Nat) :
    (t.push p kind lexeme line).above? k =
      if k = t.size then some (p, (t.children p).length) else t.above? k := by
  unfold above?
  rw [entry_push kind lexeme line hp]
  split
  · rfl
  · split
    · rename_i hk
      rw [hk]
    · rfl

/-- What is in a list behind which something was put. -/
theorem getElem?_concat_eq_some {l : List Nat} {n m i : Nat} :
    (l ++ [n])[i]? = some m ↔ l[i]? = some m ∨ i = l.length ∧ m = n := by
  rw [List.getElem?_append]
  split
  · rename_i hlt
    refine ⟨.inl, fun hor => hor.resolve_right fun hend => ?_⟩
    omega
  · rename_i hle
    rw [List.getElem?_eq_none (Nat.le_of_not_lt hle), List.getElem?_singleton]
    constructor
    · intro heq
      split at heq
      · exact .inr ⟨by omega, (Option.some.inj heq).symm⟩
      · cases heq
    · rintro (heq | ⟨rfl, rfl⟩)
      · cases heq
      · rw [if_pos (Nat.sub_self _)]

end Pushing

/-- The invariant of pushing. -/
structure Linked (t : GrowingTree) : Prop where
  /-- The first node is below none. -/
  root : 0 < t.size ∧ t.above? 0 = none
  /-- All others are below one. -/
  placed : ∀ {k : Nat}, 0 < k → k < t.size → ∃ p i, t.above? k = some (p, i)
  /-- A node is noted where it is. -/
  noted : ∀ {p i k : Nat}, (t.children p)[i]? = some k ↔ t.above? k = some (p, i)
  /-- A parent is older. -/
  older : ∀ {p i k : Nat}, t.above? k = some (p, i) → p < k ∧ k < t.size

/-- **One push keeps the invariant.**  Behind the children that were there, at the position which is
noted, is the node that is new. -/
theorem Linked.push {t : GrowingTree} (h : t.Linked) {p : Nat} (hp : p < t.size) (kind : Kind)
    (lexeme : Option String) (line : Option Int) : (t.push p kind lexeme line).Linked where
  root := by
    refine ⟨by simp, ?_⟩
    have hroot := h.root
    rw [above?_push kind lexeme line hp, if_neg (by omega)]
    exact hroot.2
  placed {k} hk hlt := by
    rw [size_push] at hlt
    rw [above?_push kind lexeme line hp]
    split
    · exact ⟨_, _, rfl⟩
    · exact h.placed hk (by omega)
  noted {q i k} := by
    have hfresh : ∀ {i : Nat}, (t.children q)[i]? ≠ some t.size := by
      intro i hi
      exact Nat.lt_irrefl _ (h.older (h.noted.mp hi)).2
    rw [children_push kind lexeme line hp, above?_push kind lexeme line hp]
    by_cases hk : k = t.size
    · subst hk
      by_cases hq : q = p
      · subst hq
        simpa [getElem?_concat_eq_some, hfresh] using eq_comm
      · simp [hq, hfresh, Ne.symm hq]
    · by_cases hq : q = p
      · subst hq
        simp [getElem?_concat_eq_some, hk, h.noted]
      · simp [hq, hk, h.noted]
  older {q i k} hk := by
    rw [above?_push kind lexeme line hp] at hk
    rw [size_push]
    split at hk
    · cases hk
      omega
    · have := h.older hk
      omega

/-- The invariant holds of all trees that pushes make. -/
theorem Grown.linked {t : GrowingTree} (h : t.Grown) : t.Linked := by
  induction h with
  | plant kind lexeme line =>
    have hnone : ∀ k, (GrowingTree.plant kind lexeme line).above? k = none := by
      intro k
      cases k with
      | zero => rfl
      | succ k => exact above?_eq_none (Nat.le_add_left 1 k)
    have hnil : ∀ k, (GrowingTree.plant kind lexeme line).children k = [] := by
      intro k
      cases k with
      | zero => rfl
      | succ k => exact children_eq_nil (Nat.le_add_left 1 k)
    exact {
      root := ⟨Nat.zero_lt_one, rfl⟩
      placed := fun hk hlt => absurd (Nat.le_of_lt_succ hlt) (Nat.not_le_of_lt hk)
      noted := by
        intro p i k
        rw [hnone, hnil]
        exact ⟨nofun, nofun⟩
      older := by
        intro p i k hk
        rw [hnone] at hk
        cases hk }
  | push h hp kind lexeme line ih => exact ih.push hp kind lexeme line

/-! ## Reading -/

/-- The children that are younger than the node: all of them, in a tree that pushes made. -/
def younger (t : GrowingTree) (k : Nat) : List Nat :=
  (t.children k).filter fun c => k < c ∧ c < t.size

theorem sub_lt_of_mem_younger {t : GrowingTree} {k c : Nat} (hc : c ∈ t.younger k) :
    t.size - c < t.size - k := by
  have := of_decide_eq_true (List.mem_filter.mp hc).2
  omega

/-- The nodes at and below a node, parents before children and left before right. -/
def walk (t : GrowingTree) (k : Nat) : List Nat :=
  k :: (t.younger k).attach.flatMap fun ⟨c, _⟩ => t.walk c
termination_by t.size - k
decreasing_by exact sub_lt_of_mem_younger ‹_›

/-- What stands at and below a node, as a term. -/
def node (t : GrowingTree) (k : Nat) : Node :=
  { kind := (t.entry k).kind, lexeme := (t.entry k).lexeme, line := (t.entry k).line,
    children := (t.younger k).attach.map fun ⟨c, _⟩ => t.node c }
termination_by t.size - k
decreasing_by exact sub_lt_of_mem_younger ‹_›

/-- The whole tree as a term. -/
def tree (t : GrowingTree) : Node := t.node 0

/-- The nodes above a node, nearest first, each with the position that leads down. -/
def above (t : GrowingTree) (k : Nat) : List (Node × Nat) :=
  match t.above? k with
  | none => []
  | some (p, i) => if p < k then (t.node p, i) :: t.above p else []
termination_by k

/-- The place of a node in the term. -/
def site (t : GrowingTree) (k : Nat) : Site := ⟨t.node k, t.above k⟩

/-- A growing tree with the ways that lead from one node to another. -/
def navigation (t : GrowingTree) : Navigation Nat where
  children := t.children
  parent? := t.parent?
  index? := t.index?
  firstChild? := t.firstChild?
  next? := t.next?
  prev? := t.prev?
  walk := t.walk

theorem above?_of_parent? {t : GrowingTree} {k p i : Nat} (hp : t.parent? k = some p)
    (hi : t.index? k = some i) : t.above? k = some (p, i) := by
  obtain ⟨⟨q, j⟩, habove, rfl⟩ := Option.map_eq_some_iff.mp hp
  obtain ⟨step, habove', rfl⟩ := Option.map_eq_some_iff.mp hi
  cases habove.symm.trans habove'
  exact habove

namespace Linked

variable {t : GrowingTree} (h : t.Linked)
include h

theorem older_of_mem {k c : Nat} (hc : c ∈ t.children k) : k < c ∧ c < t.size := by
  obtain ⟨i, hi⟩ := List.mem_iff_getElem?.mp hc
  exact h.older (h.noted.mp hi)

theorem younger_eq (k : Nat) : t.younger k = t.children k :=
  List.filter_eq_self.mpr fun _ hc => decide_eq_true (h.older_of_mem hc)

/-- The walk goes through a node and then through its children, from left to right. -/
theorem walk_eq (k : Nat) : t.walk k = k :: (t.children k).flatMap t.walk := by
  rw [walk, List.flatMap_subtype (fun _ _ => rfl), List.unattach_attach, h.younger_eq k]

/-- The term of a node has the terms of its children below it. -/
theorem node_eq (k : Nat) : t.node k =
    { kind := (t.entry k).kind, lexeme := (t.entry k).lexeme, line := (t.entry k).line,
      children := (t.children k).map t.node } := by
  rw [node, List.map_subtype (fun _ _ => rfl), List.unattach_attach, h.younger_eq k]

theorem above_eq {k p i : Nat} (hk : t.above? k = some (p, i)) :
    t.above k = (t.node p, i) :: t.above p := by
  rw [above, hk]
  exact if_pos (h.older hk).1

/-- **The notes obey the laws of navigation.** -/
theorem laws : t.navigation.Laws 0 fun k => t.size - k where
  down {p c i} hc := by
    have hnoted : t.above? c = some (p, i) := h.noted.mp hc
    have holder := h.older hnoted
    refine ⟨?_, ?_, by omega⟩
    · show (t.above? c).map Prod.fst = _
      rw [hnoted]
      rfl
    · show (t.above? c).map Prod.snd = _
      rw [hnoted]
      rfl
  root := by
    show (t.above? 0).map Prod.fst = none ∧ (t.above? 0).map Prod.snd = none
    rw [h.root.2]
    exact ⟨rfl, rfl⟩
  first _ := rfl
  next {c p i} hp hi := by
    show t.next? c = _
    rw [next?, above?_of_parent? hp hi]
    rfl
  prev {c p i} hp hi := by
    show t.prev? c = _
    rw [prev?, above?_of_parent? hp hi]
    rfl
  prev_first {c} hi := by
    obtain ⟨⟨p, i⟩, habove, rfl⟩ := Option.map_eq_some_iff.mp hi
    show t.prev? c = none
    rw [prev?, habove]
  alone {c} hp := by
    have hnone : t.above? c = none := Option.map_eq_none_iff.mp hp
    show t.next? c = none ∧ t.prev? c = none
    rw [next?, prev?, hnone]
    exact ⟨rfl, rfl⟩
  walk := h.walk_eq

theorem site_root : t.site 0 = Site.root t.tree := by
  unfold site
  rw [above, h.root.2]
  rfl

/-- The sites below the site of a node are those of its children. -/
theorem children_site (k : Nat) : (t.site k).children = (t.children k).map t.site := by
  refine List.ext_getElem? fun i => ?_
  have hchildren : (t.node k).children = (t.children k).map t.node := by rw [h.node_eq k]
  rw [Site.getElem?_children, List.getElem?_map]
  unfold Site.child? site
  rw [hchildren, List.getElem?_map]
  cases hi : (t.children k)[i]? with
  | none => rfl
  | some c =>
    simp only [Option.map_some]
    rw [h.above_eq (h.noted.mp hi)]

/-- **The sites of the term mirror the nodes.** -/
theorem mirrors : t.navigation.Mirrors Site.navigation t.site 0 := by
  have hlaws := Site.laws t.tree
  rw [← h.site_root] at hlaws
  exact h.laws.mirrors hlaws fun k _ => h.children_site k

/-- Every node is below the first. -/
theorem mem_walk_iff {k : Nat} : k ∈ t.walk 0 ↔ k < t.size := by
  constructor
  · intro hk
    obtain rfl | ⟨p, -, i, hi⟩ := h.laws.up hk
    · exact h.root.1
    · exact (h.older (h.noted.mp hi)).2
  · intro hk
    induction k using Nat.strongRecOn with
    | ind k ih =>
      obtain rfl | hpos := Nat.eq_zero_or_pos k
      · exact h.laws.mem_walk_self 0
      · obtain ⟨p, i, hi⟩ := h.placed hpos hk
        have holder := h.older hi
        exact h.laws.walk_child (ih p holder.1 (by omega)) (h.noted.mpr hi)

end Linked

/-! ## Every tree -/

mutual
/-- Pushes a node as a term says it, and then, below it, all that the term has below. -/
def graft (t : GrowingTree) (p : Nat) : Node → GrowingTree
  | ⟨kind, lexeme, line, ns⟩ => graftAll (t.push p kind lexeme (some line)) t.size ns

/-- Pushes nodes as several terms say them, from left to right. -/
def graftAll (t : GrowingTree) (p : Nat) : List Node → GrowingTree
  | [] => t
  | n :: rest => graftAll (t.graft p n) p rest
end

/-- The tree that a term says: its first node is planted, and all others are pushed. -/
def ofNode : Node → GrowingTree
  | ⟨kind, lexeme, line, ns⟩ => (plant kind lexeme line).graftAll 0 ns

/-- A tree has become another: some node got more children, behind those it had, and no other node
is changed. -/
structure Extends (t t' : GrowingTree) (p : Nat) (new : List Nat) : Prop where
  /-- There are more nodes. -/
  size : t.size + new.length ≤ t'.size
  /-- The node that got more children. -/
  parent : t'.entry p = { t.entry p with children := t.children p ++ new }
  /-- The others. -/
  others : ∀ k, k < t.size → k ≠ p → t'.entry k = t.entry k

variable {t t' t'' : GrowingTree} {p : Nat}

theorem Extends.size_lt {n : Nat} (h : t.Extends t' p [n]) : t.size < t'.size := h.size

theorem extends_push (hp : p < t.size) (kind : Kind) (lexeme : Option String)
    (line : Option Int) : t.Extends (t.push p kind lexeme line) p [t.size] where
  size := by simp
  parent := by rw [entry_push kind lexeme line hp, if_neg (Nat.ne_of_lt hp), if_pos rfl]
  others k hk hne := by
    rw [entry_push kind lexeme line hp, if_neg (Nat.ne_of_lt hk), if_neg hne]

/-- What happens below a new node happens to its parent's tree. -/
theorem Extends.below {new : List Nat} (h : t.Extends t' p [t.size])
    (h' : t'.Extends t'' t.size new) (hp : p < t.size) : t.Extends t'' p [t.size] where
  size := by
    have := h'.size
    exact Nat.le_trans h.size_lt (by omega)
  parent := by rw [h'.others p (Nat.lt_trans hp h.size_lt) (Nat.ne_of_lt hp), h.parent]
  others k hk hne := by
    rw [h'.others k (Nat.lt_trans hk h.size_lt) (Nat.ne_of_lt hk), h.others k hk hne]

theorem Extends.trans {new new' : List Nat} (h : t.Extends t' p new) (h' : t'.Extends t'' p new') :
    t.Extends t'' p (new ++ new') where
  size := by
    have := h.size
    have := h'.size
    rw [List.length_append]
    omega
  parent := by
    rw [h'.parent]
    unfold children
    rw [h.parent, List.append_assoc]
    rfl
  others k hk hne := by
    have := h.size
    rw [h'.others k (by omega) hne, h.others k hk hne]

/-- What stands below a node is told by this node and the younger ones. -/
theorem Linked.node_congr (h : t.Linked) (h' : t'.Linked) {k : Nat} (hk : k < t.size)
    (heq : ∀ j, k ≤ j → j < t.size → t'.entry j = t.entry j) : t'.node k = t.node k := by
  induction hm : t.size - k using Nat.strongRecOn generalizing k with
  | ind m ih =>
    subst hm
    have hsame : t'.entry k = t.entry k := heq k (Nat.le_refl k) hk
    have hchildren : t'.children k = t.children k := congrArg Entry.children hsame
    have hbelow : (t.children k).map t'.node = (t.children k).map t.node := by
      refine List.map_congr_left fun c hc => ?_
      obtain ⟨hlt, hsize⟩ := h.older_of_mem hc
      exact ih (t.size - c) (by omega) hsize (fun j hj => heq j (by omega)) rfl
    rw [h.node_eq, h'.node_eq, hsame, hchildren, hbelow]

mutual
/-- A graft adds one child, with what the term says at and below it. -/
theorem graft_spec (n : Node) {t : GrowingTree} {p : Nat} (h : t.Grown) (hp : p < t.size) :
    (t.graft p n).Grown ∧ t.Extends (t.graft p n) p [t.size] ∧ (t.graft p n).node t.size = n := by
  obtain ⟨kind, lexeme, line, ns⟩ := n
  rw [graft]
  obtain ⟨hgrown, new, hnew, hns⟩ := graftAll_spec ns (h.push hp kind lexeme (some line))
    (p := t.size) (by simp)
  refine ⟨hgrown, (extends_push hp kind lexeme (some line)).below hnew hp, ?_⟩
  have hparent := hnew.parent
  rw [children_push kind lexeme (some line) hp, entry_push kind lexeme (some line) hp, if_pos rfl,
    if_neg (Nat.ne_of_gt hp), children_eq_nil (Nat.le_refl _), List.nil_append] at hparent
  rw [hgrown.linked.node_eq, children, hparent, hns]
  rfl

/-- Several grafts add children in their order, with what the terms say. -/
theorem graftAll_spec (ns : List Node) {t : GrowingTree} {p : Nat} (h : t.Grown)
    (hp : p < t.size) :
    (t.graftAll p ns).Grown ∧ ∃ new, t.Extends (t.graftAll p ns) p new ∧
      new.map (t.graftAll p ns).node = ns := by
  cases ns with
  | nil => exact ⟨h, [], ⟨Nat.le_refl _, by rw [List.append_nil]; rfl, fun _ _ _ => rfl⟩, rfl⟩
  | cons n rest =>
    obtain ⟨hgrown, hfirst, hn⟩ := graft_spec n h hp
    obtain ⟨hgrown', new, hnew, hrest⟩ := graftAll_spec rest hgrown (Nat.lt_trans hp hfirst.size_lt)
    rw [graftAll]
    refine ⟨hgrown', [t.size] ++ new, hfirst.trans hnew, ?_⟩
    -- the later terms stand below `p`, which is older than the first
    have hkept := hgrown.linked.node_congr hgrown'.linked hfirst.size_lt
      fun j hj hlt => hnew.others j hlt (by omega)
    rw [List.map_append, List.map_singleton, hkept, hn, hrest]
    rfl
end

/-- **Every tree is made by pushing**: the term that is read off is the one that was said. -/
theorem tree_ofNode (n : Node) : (ofNode n).Grown ∧ (ofNode n).tree = n := by
  obtain ⟨kind, lexeme, line, ns⟩ := n
  obtain ⟨hgrown, new, hnew, hns⟩ := graftAll_spec ns (.plant kind lexeme line) (p := 0)
    Nat.zero_lt_one
  refine ⟨hgrown, ?_⟩
  have hroot : ((plant kind lexeme line).graftAll 0 ns).entry 0 =
      { kind, lexeme, line, children := new } := hnew.parent
  rw [ofNode, tree, hgrown.linked.node_eq, children, hroot, hns]

/-- A builder's call puts one more statement, or a node as it is, behind those that are there. -/
theorem parts_add (b : Builder) (part : Part) (line : Option Int) :
    ∃ n, (b.add part line).1.parts = b.parts ++ [n] := by
  cases part with
  | raw node => exact ⟨node, rfl⟩
  | command word args quiet force => exact ⟨_, rfl⟩
  | guarded guard expr => exact ⟨_, rfl⟩
  | count text => exact ⟨_, rfl⟩
  | forEach name list => exact ⟨_, rfl⟩
  | bare kind => exact ⟨_, rfl⟩

/-- What is grafted below the first node comes behind all that is there. -/
theorem Grown.tree_graft (h : t.Grown) (n : Node) :
    (t.graft 0 n).tree = { t.tree with children := t.tree.children ++ [n] } := by
  have hroot := h.linked.root.1
  obtain ⟨hgrown, hnew, hn⟩ := graft_spec n h hroot
  have hkept : (t.children 0).map (t.graft 0 n).node = (t.children 0).map t.node := by
    refine List.map_congr_left fun c hc => ?_
    obtain ⟨hlt, hsize⟩ := h.linked.older_of_mem hc
    exact h.linked.node_congr hgrown.linked hsize fun j hj hlt => hnew.others j hlt (by omega)
  have hchildren : (t.graft 0 n).children 0 = t.children 0 ++ [t.size] :=
    congrArg Entry.children hnew.parent
  rw [tree, tree, hgrown.linked.node_eq, h.linked.node_eq, hchildren, hnew.parent, List.map_append,
    hkept, List.map_singleton, hn]

/-- **Links and tree agree, however a tree has grown.**  Whatever is pushed below whatever node, in
any order: parents, positions and neighbours are those of the tree, and the way by links from any
node is the walk from it; all nodes are on the walk from the first.  The sites of the term that is
read off match the nodes in all of this.  A term is read off again from the tree that it says, and a
builder's call is a graft below the first node, so this is so for documents and built scripts. -/
theorem Grown.navigated (h : t.Grown) :
    t.navigation.Agrees 0 ∧ (∀ k, k ∈ t.walk 0 ↔ k < t.size) ∧
      t.site 0 = Site.root t.tree ∧ t.navigation.Mirrors Site.navigation t.site 0 ∧
      (∀ n : Node, (ofNode n).Grown ∧ (ofNode n).tree = n ∧
        Site.navigation.Agrees (Site.root n)) ∧
      ∀ (b : Builder) (part : Part) (line : Option Int), t.tree = b.root →
        ∃ n, (t.graft 0 n).Grown ∧ (t.graft 0 n).tree = (b.add part line).1.root := by
  refine ⟨h.linked.laws.agrees, fun k => h.linked.mem_walk_iff, h.linked.site_root,
    h.linked.mirrors, fun n => ?_, fun b part line htree => ?_⟩
  · obtain ⟨hgrown, hread⟩ := tree_ofNode n
    exact ⟨hgrown, hread, (Site.laws n).agrees⟩
  · obtain ⟨n, hn⟩ := parts_add b part line
    refine ⟨n, (graft_spec n h h.linked.root.1).1, ?_⟩
    rw [h.tree_graft, htree, Builder.root, Builder.root, hn]

/-- Two statements, and then a command below the first: the node that is made last is met before the
second statement. -/
def lateCommand : GrowingTree :=
  (((plant .script).push 0 .statement none (some 1)).push 0 .statement none (some 2)).push 1
    .command (some "wait")

theorem navigated_lateCommand :
    lateCommand.Grown ∧ lateCommand.walk 0 = [0, 1, 3, 2] ∧
      lateCommand.navigation.Visits 0 0 [0, 1, 3, 2] ∧ lateCommand.navigation.Agrees 0 ∧
      (Site.root lateCommand.tree).walk = [0, 1, 3, 2].map lateCommand.site := by
  have hgrown : lateCommand.Grown :=
    .push (.push (.push (.plant _ _ _) (by decide) _ _ _) (by decide) _ _ _) (by decide) _ _ _
  obtain ⟨hagrees, -, hroot, hmirrors, -⟩ := hgrown.navigated
  have hwalk : lateCommand.walk 0 = [0, 1, 3, 2] := by
    have h0 : lateCommand.children 0 = [1, 2] := rfl
    have h1 : lateCommand.children 1 = [3] := rfl
    have h2 : lateCommand.children 2 = [] := rfl
    have h3 : lateCommand.children 3 = [] := rfl
    simp [hgrown.linked.walk_eq, h0, h1, h2, h3]
  have hmem : 0 ∈ lateCommand.navigation.walk 0 := by
    show 0 ∈ lateCommand.walk 0
    rw [hwalk]
    exact List.mem_cons_self
  refine ⟨hgrown, hwalk, (hagrees.visits 0 hmem _).mpr hwalk.symm, hagrees, ?_⟩
  rw [← hroot, ← hwalk]
  exact hmirrors.walk 0 hmem

end GrowingTree

end Cadence
