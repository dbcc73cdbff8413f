/-
  ARGUMENTS and STATEMENTS — what a script refers to in its tree.

  An argument is a token together with the script it stands in, for only that script's variables
  give it a meaning; it is resolved anew each time it is read.  Two arguments are the same when they
  have the same text, whatever they stand for.

  A statement is a site directly below the root of a loaded tree.  A script may load another tree
  while it runs, so a statement carries the number of the loading it belongs to: statements are the
  same when that number and their position are.
-/
import Cadence.Tree.Site

namespace Cadence

/-- A token of a script. -/
structure Argument where
  /-- The number of the script whose variables are meant. -/
  owner : Nat
  /-- Where the token stands. -/
  site : Site
deriving Repr, Inhabited

namespace Argument

/-- The text of the token. -/
def lexeme (a : Argument) : Option String := a.site.lexeme

/-- Do two arguments have the same text? -/
def same (a b : Argument) : Bool := a.lexeme = b.lexeme

end Argument

/-- A statement of a loaded tree. -/
structure Statement where
  /-- The number of the loading. -/
  load : Nat
  /-- Where the statement stands. -/
  site : Site
deriving Repr, Inhabited

namespace Statement

/-- Are two statements of one script the same? -/
def same (a b : Statement) : Bool := a.load = b.load && a.site.index? = b.site.index?

/-- The statement after this one, in its own tree. -/
def next? (s : Statement) : Option Statement := s.site.next?.map fun n => { s with site := n }

/-- The line of a statement. -/
def line (s : Statement) : Int := s.site.line

/-- The first token of a statement. -/
def head? (s : Statement) : Option Site := s.site.firstChild?

end Statement

end Cadence
