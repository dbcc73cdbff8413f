/-
  SITES — a node together with the way up from it.

  A node knows its children only.  A site adds the nodes above it, each with the place taken in it,
  so that a site can be asked for its parent, for its neighbours and for the statement that encloses
  it.  Every tree that can be reached from a site is a part of the tree it was entered by, and going
  down and up again comes back to the same site.
-/
import Cadence.Tree.Node

namespace Cadence

/-- A node with the nodes above it. -/
structure Site where
  /-- The node itself. -/
  node : Node
  /-- The nodes above, nearest first, each with the index of the child that leads down. -/
  above : List (Node × Nat) := []
deriving Repr, Inhabited

namespace Site

/-- The top of a tree. -/
def root (n : Node) : Site := { node := n }

/-- The kind of the node at a site. -/
def kind (s : Site) : Kind := s.node.kind

/-- The text of the node at a site. -/
def lexeme (s : Site) : Option String := s.node.lexeme

/-- The line of the node at a site. -/
def line (s : Site) : Int := s.node.line

/-- The site one step up. -/
def parent? (s : Site) : Option Site :=
  match s.above with
  | [] => none
  | (n, _) :: rest => some ⟨n, rest⟩

/-- The position among the children of the parent. -/
def index? (s : Site) : Option Nat := s.above.head?.map Prod.snd

/-- The child with the given index. -/
def child? (s : Site) (i : Nat) : Option Site :=
  s.node.children[i]?.map fun c => ⟨c, (s.node, i) :: s.above⟩

/-- The first child. -/
def firstChild? (s : Site) : Option Site := s.child? 0

/-- The next node under the same parent. -/
def next? (s : Site) : Option Site :=
  match s.above with
  | [] => none
  | (n, i) :: rest => Site.child? ⟨n, rest⟩ (i + 1)

/-- The node before under the same parent. -/
def prev? (s : Site) : Option Site :=
  match s.above with
  | (n, i + 1) :: rest => Site.child? ⟨n, rest⟩ i
  | _ => none

/-- Sites of the given nodes below `parent`, the first of them at the given index. -/
def below (parent : Site) : Nat → List Node → List Site
  | _, [] => []
  | i, n :: rest => ⟨n, (parent.node, i) :: parent.above⟩ :: below parent (i + 1) rest

/-- The children of a node, in order. -/
def children (s : Site) : List Site := s.below 0 s.node.children

/-- The nodes after this one under the same parent, in order. -/
def following (s : Site) : List Site :=
  match s.above with
  | [] => []
  | (n, i) :: rest => below ⟨n, rest⟩ (i + 1) (n.children.drop (i + 1))

/-- The indices that lead from the top of the tree to this site. -/
def path (s : Site) : List Nat := (s.above.map Prod.snd).reverse

/-- The nearest statement, counted upwards from the site itself: where to look for it above. -/
def enclosingIn : List (Node × Nat) → Option Site
  | [] => none
  | (n, _) :: rest => if n.kind = .statement then some ⟨n, rest⟩ else enclosingIn rest

/-- The statement that a site lies in; a statement lies in itself. -/
def statement? (s : Site) : Option Site :=
  if s.kind = .statement then some s else enclosingIn s.above

mutual
/-- The sites of a tree, parents before children and left before right. -/
def walkFrom (above : List (Node × Nat)) : Node → List Site
  | ⟨kind, lexeme, line, children⟩ =>
    let n : Node := ⟨kind, lexeme, line, children⟩
    ⟨n, above⟩ :: walkBelow n above 0 children

/-- The sites of the trees below a node, from the given index on. -/
def walkBelow (parent : Node) (above : List (Node × Nat)) : Nat → List Node → List Site
  | _, [] => []
  | i, n :: rest =>
    walkFrom ((parent, i) :: above) n ++ walkBelow parent above (i + 1) rest
end

/-- The sites at and below a site, parents before children and left before right. -/
def walk (s : Site) : List Site := walkFrom s.above s.node

/-! ## Going down and back -/

/-- The parent of a child is the node it was reached from. -/
theorem parent?_of_child? {s c : Site} {i : Nat} (h : s.child? i = some c) :
    c.parent? = some s := by
  simp only [child?, Option.map_eq_some_iff] at h
  obtain ⟨n, _, rfl⟩ := h
  rfl

/-- A child knows its position. -/
theorem index?_of_child? {s c : Site} {i : Nat} (h : s.child? i = some c) :
    c.index? = some i := by
  simp only [child?, Option.map_eq_some_iff] at h
  obtain ⟨n, _, rfl⟩ := h
  rfl

/-- A first child is smaller than the node it is taken from. -/
theorem sizeOf_firstChild? {s c : Site} (h : s.firstChild? = some c) :
    sizeOf c.node < sizeOf s.node := by
  simp only [firstChild?, child?, Option.map_eq_some_iff] at h
  obtain ⟨n, hn, rfl⟩ := h
  exact Node.sizeOf_lt_of_mem (List.mem_of_getElem? hn)

end Site

end Cadence
