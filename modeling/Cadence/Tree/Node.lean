/-
  NODES — the trees that scripts are.

  A script is not read from text here: it comes as a tree.  A node has a kind, perhaps the text it
  was written as, the line it stands on, and its children in order.  `render` shows a node as it
  might have been written, for logs and tracebacks.
-/
import Cadence.Tree.Kind

namespace Cadence

/-- A node of a script's tree. -/
structure Node where
  /-- What the node stands for. -/
  kind : Kind
  /-- The text of the node, if it has one. -/
  lexeme : Option String := none
  /-- The line that the node stands on. -/
  line : Int := 0
  /-- The parts of the node, in order. -/
  children : List Node := []
deriving Repr, Inhabited

namespace Node

/-- How a node without structure of its own is shown: its text, or the word for its kind. -/
def token (n : Node) : String := n.lexeme.getD n.kind.word

mutual
/-- The tokens of a tree, parents before children and left before right; structural nodes have
none of their own. -/
def tokens : Node → List String
  | ⟨kind, lexeme, line, children⟩ =>
    (if kind.isStructural then [] else [token ⟨kind, lexeme, line, children⟩])
      ++ tokensOf children

/-- The tokens of trees that stand side by side. -/
def tokensOf : List Node → List String
  | [] => []
  | n :: rest => n.tokens ++ tokensOf rest
end

mutual
/-- A tree as it might have been written: a script has one part a line, anything else its tokens
with blanks between. -/
def render : Node → String
  | ⟨kind, lexeme, line, children⟩ =>
    if kind = .script then "\n".intercalate (renders children)
    else " ".intercalate (tokens ⟨kind, lexeme, line, children⟩)

/-- Each of several trees as it might have been written. -/
def renders : List Node → List String
  | [] => []
  | n :: rest => n.render :: renders rest
end

/-- A child is smaller than its parent. -/
theorem sizeOf_lt_of_mem {n c : Node} (h : c ∈ n.children) : sizeOf c < sizeOf n := by
  obtain ⟨kind, lexeme, line, children⟩ := n
  have := List.sizeOf_lt_of_mem h
  simp only [Node.mk.sizeOf_spec]
  simp only at this
  omega

end Node

end Cadence
