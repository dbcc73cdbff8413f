/-
  DISKS — where files are looked up.

  A disk answers what stands at a path; the answer may take effects of any kind, so that the same
  loading works on a real disk and on one in memory.  A disk in memory is a list of directories and
  of files with their contents; a path is followed part by part, and every part but the last must be
  a directory.
-/
import Cadence.Extension.Path
import Cadence.Text.Quoted

namespace Cadence

/-- What stands at a path. -/
inductive Found where
  /-- A file with its content. -/
  | file (content : String)
  /-- A directory. -/
  | directory
  /-- Nothing. -/
  | missing
  /-- Nothing, for the path leads through a file. -/
  | notDirectory
  /-- Nothing, for the path is longer than any may be. -/
  | tooLong
deriving Repr, DecidableEq

/-- Is there anything? -/
def Found.exists_ : Found → Bool
  | .file _ | .directory => true
  | _ => false

/-- Why there is no file to read at a path. -/
def Found.complaint (path : String) : Found → String
  | .file _ => ""
  | .directory => "[Errno 21] Is a directory: " ++ Text.quoted path
  | .missing => "[Errno 2] No such file or directory: " ++ Text.quoted path
  | .notDirectory => "[Errno 20] Not a directory: " ++ Text.quoted path
  | .tooLong => "[Errno 36] File name too long: " ++ Text.quoted path

/-- Where files are looked up. -/
structure Disk (m : Type → Type) where
  /-- The directory in which relative paths begin. -/
  here : String
  /-- The directory of the bundled extensions. -/
  bundled : String
  /-- What stands at a path. -/
  look : String → m Found

/-! ## A disk in memory -/

/-- Directories and files in memory, by the parts of their paths from the root. -/
structure Memory where
  /-- The files with their contents. -/
  files : List (List String × String) := []
  /-- The directories beside those that hold files. -/
  directories : List (List String) := []
deriving Repr

namespace Memory

/-- The number of bytes that a part of a path may have. -/
def partLimit : Nat := 255

/-- The number of bytes that a path may have. -/
def pathLimit : Nat := 4095

/-- Is there a directory at some parts?  Those that lead to a file or to another directory are. -/
def isDirectory (d : Memory) (ps : List String) : Bool :=
  ps.isEmpty || d.directories.any ps.isPrefixOf
    || d.files.any fun f => ps.isPrefixOf f.1 && ps.length < f.1.length

/-- Follows the rest of a path from what is reached; the parts so far are given. -/
def follow (d : Memory) (reached : List String) (content : Option String) :
    List String → Found
  | [] =>
    match content with
    | some c => .file c
    | none => .directory
  | p :: rest =>
    if content.isSome then .notDirectory
    else if p = "" ∨ p = "." then d.follow reached none rest
    else if p = ".." then d.follow reached.dropLast none rest
    else if partLimit < p.utf8ByteSize then .tooLong
    else
      let next := reached ++ [p]
      match d.files.lookup next with
      | some c => d.follow next (some c) rest
      | none => if d.isDirectory next then d.follow next none rest else .missing

/-- What stands at a path seen from a directory. -/
def look (d : Memory) (here path : String) : Found :=
  if path = "" then .missing
  else if pathLimit < path.utf8ByteSize then .tooLong
  else d.follow [] none (Path.parts (Path.join here path))

/-- A disk in memory as a disk. -/
def disk {m : Type → Type} [Pure m] (d : Memory) (here bundled : String) : Disk m :=
  { here, bundled, look := fun path => pure (d.look here path) }

end Memory

end Cadence
