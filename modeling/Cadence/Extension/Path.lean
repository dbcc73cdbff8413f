/-
  PATHS of files, as texts with slashes.

  A path is absolute when it begins with a slash.  `absolute` writes a path from the root without
  empty parts, without parts that mean "here", and without parts that mean "up"; a path that begins
  with exactly two slashes keeps both.
-/
namespace Cadence.Path

/-- The stretches of a text between slashes; `part` holds, last first, what is read of the current
one. -/
def splitSlashes (part : List Char) : List Char → List (List Char)
  | [] => [part.reverse]
  | c :: rest =>
    if c = '/' then part.reverse :: splitSlashes [] rest else splitSlashes (c :: part) rest

/-- The parts of a path between its slashes. -/
def parts (path : String) : List String := (splitSlashes [] path.toList).map String.ofList

/-- Does a path begin at the root? -/
def isAbsolute (path : String) : Bool := path.toList.head? = some '/'

/-- A path seen from a directory; an absolute one stands for itself. -/
def join (directory path : String) : String :=
  if isAbsolute path then path
  else if directory = "" ∨ directory.toList.getLast? = some '/' then directory ++ path
  else directory ++ "/" ++ path

/-- The parts of an absolute path without detours; those so far are given last first. -/
def straighten (done : List String) : List String → List String
  | [] => done.reverse
  | p :: rest =>
    if p = "" ∨ p = "." then straighten done rest
    else if p = ".." then straighten done.tail rest
    else straighten (p :: done) rest

/-- The slashes in front of an absolute path. -/
def rootOf (path : String) : String :=
  match path.toList with
  | '/' :: '/' :: '/' :: _ => "/"
  | '/' :: '/' :: _ => "//"
  | _ => "/"

/-- A path from the root without detours. -/
def absolute (here path : String) : String :=
  let full := join here path
  rootOf full ++ "/".intercalate (straighten [] (parts full))

/-- Do two paths name the same place, however many slashes they have? -/
def same (a b : String) : Bool := (parts a).filter (· ≠ "") = (parts b).filter (· ≠ "")

/-- The directory of an absolute path without detours. -/
def directory (path : String) : String :=
  match (parts path).dropLast with
  | [] | [""] => "/"
  | ["", ""] => "//"
  | ps => "/".intercalate ps

example : absolute "/T/a" "../b//./c" = "/T/b/c" := by decide +kernel
example : absolute "/T" "//x" = "//x" ∧ absolute "/T" "" = "/T" ∧ absolute "/" ".." = "/" := by
  decide +kernel
example : directory "/T/p" = "/T" ∧ directory "/p" = "/" := by decide +kernel
example : same "//T/p" "/T/p" = true := by decide +kernel

end Cadence.Path
