/-
  DOCUMENTS — scripts that are already trees, as JSON texts.

  A document has a name, a version and the root of a tree.  Each node is an object with its kind,
  perhaps its text, its line and its children; what is absent has a default.  Every rule is checked
  everywhere, so that all problems are told at once, each with its place; only the two rules about
  the uppermost levels of the tree wait until the tree is otherwise good, and tell one problem.

  `parse` and `dump` are meant to be inverse: what is dumped is read back as the same tree.
-/
import Cadence.Json.Reader
import Cadence.Json.Printer
import Cadence.Fault

namespace Cadence

open Text

/-- A script with its name. -/
structure Document where
  /-- The name of the script. -/
  name : String := "<script>"
  /-- The tree. -/
  root : Node
deriving Repr

/-- The result of a check: a good value, or everything that is wrong. -/
inductive Checked (α : Type) where
  /-- Nothing is wrong. -/
  | good (value : α)
  /-- At least one thing is wrong. -/
  | bad (problems : List Problem)
deriving Repr

namespace Checked

variable {α β γ : Type}

/-- One thing is wrong. -/
def fail (path : List Step) (defect : Defect) : Checked α := .bad [⟨path, defect⟩]

/-- Changes a good value. -/
def map (f : α → β) : Checked α → Checked β
  | .good v => .good (f v)
  | .bad ps => .bad ps

/-- Joins two checks; the problems of both are told. -/
def zipWith (f : α → β → γ) : Checked α → Checked β → Checked γ
  | .good a, .good b => .good (f a b)
  | .good _, .bad qs => .bad qs
  | .bad ps, .good _ => .bad ps
  | .bad ps, .bad qs => .bad (ps ++ qs)

end Checked

namespace Document

/-! ## Single fields -/

/-- The place of a field. -/
def at_ (path : List Step) (key : String) : List Step := path ++ [.key key]

/-- A needed kind of node. -/
def checkKind (path : List Step) : Option Json → Checked Kind
  | none => .fail path .absent
  | some (.text word) =>
    match Kind.ofTag? word with
    | some k => .good k
    | none => .fail path .unknownKind
  | some _ => .fail path .unknownKind

/-- A text that may be absent. -/
def checkLexeme (path : List Step) : Option Json → Checked (Option String)
  | none => .good none
  | some .null => .good none
  | some (.text s) => .good (some s)
  | some _ => .fail path .notText

/-! ### Whole numbers in texts

  A text writes a whole number with a sign in front, zeros before its digits, single underscores
  between them, and a point with zeros behind it.  The sign may also stand behind the leading
  zeros, if there is no minus in front of them. -/

/-- A number whose sign is read, without the zeros in front and the underscores among them.  One
zero stays where nothing else would, or before a point. -/
def dropLeadingZeros (cs : List Char) : Option (List Char) :=
  match cs with
  | '0' :: rest =>
    let zeros := ('0' :: rest).takeWhile fun c => c = '0' || c = '_'
    match ('0' :: rest).drop zeros.length with
    | [] => zeros.getLast?.map fun c => [c]
    | '.' :: more => zeros.getLast?.map fun c => c :: '.' :: more
    | c :: more => if isDigit c ∨ c = '-' then some (c :: more) else none
  | c :: _ => if isDigit c then some cs else none
  | [] => none

/-- A number without a point that zeros follow, at least one and nothing else. -/
def dropPointZeros (cs : List Char) : List Char :=
  match cs.dropWhile (· ≠ '.') with
  | '.' :: '0' :: rest => if rest.all (· = '0') then cs.takeWhile (· ≠ '.') else cs
  | _ => cs

/-- Does a text hold an underscore at an end, or two in a row? -/
def badUnderscores (cs : List Char) : Bool :=
  cs.head? = some '_' || cs.getLast? = some '_' || (cs.zip cs.tail).any fun p => p = ('_', '_')

/-- A number without the underscores inside it, if they stand one by one. -/
def dropSingleUnderscores (cs : List Char) : List Char :=
  if badUnderscores cs then cs else cs.filter (· ≠ '_')

/-- The whole number in a text.  The number of its digits is looked at first, so that what stands
behind too many of them makes no difference. -/
def textNumber (s : String) : Except Defect Int :=
  let (negative, unsigned) := splitSign (trimBy isMargin s.toList)
  match dropLeadingZeros unsigned with
  | none => .error .notDigits
  | some cs =>
    let cs := dropSingleUnderscores (dropPointZeros cs)
    let (inner, ds) := match cs with
      | '-' :: rest => (true, rest)
      | _ => (false, cs)
    if (negative && inner) ∨ (1 < ds.length ∧ ds.head? = some '0') then .error .notDigits
    else if Json.tooLong (negative || inner) (ds.takeWhile isDigit) then .error .oversized
    else if ds.isEmpty ∨ !ds.all isDigit then .error .notDigits
    else .ok (Double.signed (negative || inner) (digitsValue ds))

example : (textNumber " +0_12.00 ").toOption = some 12 := by decide +kernel
example : (textNumber "0-7").toOption = some (-7) ∧ (textNumber "-007").toOption = some (-7) := by
  decide +kernel
example : ["1.", "-_1", "-0-1", "--1", "1__0", ""].all fun s => (textNumber s).toOption.isNone := by
  decide +kernel

/-- The whole number that a value stands for. -/
def wholeNumber : Json → Except Defect Int
  | .int n => .ok n
  | .bool b => .ok (if b then 1 else 0)
  | .real x =>
    match Double.ofFloat x with
    | .finite _ _ _ =>
      match (Double.ofFloat x).whole? with
      | none => .error .fractional
      | some n => if -Double.wordLimit < n ∧ n < Double.wordLimit then .ok n else .error .oversized
    | _ => .error .notFinite
  | .text s => textNumber s
  | _ => .error .notWhole

/-- A line number; zero if absent. -/
def checkLine (path : List Step) : Option Json → Checked Int
  | none => .good 0
  | some v =>
    match wholeNumber v with
    | .ok n => if n < 0 then .fail path .negative else .good n
    | .error defect => .fail path defect

/-- No keys but the known ones. -/
def checkKeys (known : List String) (path : List Step) (members : List (String × Json)) :
    Checked Unit :=
  match (Json.ofMembers members).names.filter fun k => !known.contains k with
  | [] => .good ()
  | ks => .bad (ks.map fun k => ⟨at_ path k, .unknownKey⟩)

/-! ## Nodes -/

/-- The keys of a node. -/
def nodeKeys : List String := ["type", "lexeme", "line", "children"]

/-- A node from its members and its checked children. -/
def checkMembers (path : List Step) (members : List (String × Json))
    (children : Option (Checked (List Node))) : Checked Node :=
  let fields := Json.ofMembers members
  let kind := checkKind (at_ path "type") (fields.get? "type")
  let lexeme := checkLexeme (at_ path "lexeme") (fields.get? "lexeme")
  let line := checkLine (at_ path "line") (fields.get? "line")
  let node := (kind.zipWith (fun k (l : Option String) => (k, l)) lexeme).zipWith
    (fun (kl : Kind × Option String) n => Node.mk kl.1 kl.2 n) line
  (node.zipWith (fun mk cs => mk cs) (children.getD (.good []))).zipWith (fun n _ => n)
    (checkKeys nodeKeys path members)

mutual
/-- A value as a node. -/
def checkNode (path : List Step) : Json → Checked Node
  | .object members => checkMembers path members (lastChildren (at_ path "children") members)
  | _ => .fail path .notObject

/-- The children of a node: the last member of that name, if there is one. -/
def lastChildren (path : List Step) : List (String × Json) → Option (Checked (List Node))
  | [] => none
  | (k, v) :: rest =>
    match lastChildren path rest with
    | some c => some c
    | none => if k = "children" then some (checkChildren path v) else none

/-- A value as a list of nodes. -/
def checkChildren (path : List Step) : Json → Checked (List Node)
  | .array items => checkItems path 0 items
  | _ => .fail path .notArray

/-- Values as nodes, the first at the given position. -/
def checkItems (path : List Step) : Nat → List Json → Checked (List Node)
  | _, [] => .good []
  | i, v :: rest =>
    (checkNode (path ++ [.position i]) v).zipWith (· :: ·) (checkItems path (i + 1) rest)
end

/-! ## Whole documents -/

/-- The first rule about the uppermost levels that a tree breaks. -/
def brokenRule? (root : Node) : Option Defect :=
  if root.kind ≠ .script then some .rootNotScript
  else (root.children.find? fun c => c.kind ≠ .statement).map fun c => .partNotStatement c.kind

/-- The root of a document. -/
def checkRoot : Option Json → Checked Node
  | none => .fail [.key "root"] .absent
  | some v =>
    match checkNode [.key "root"] v with
    | .bad ps => .bad ps
    | .good root =>
      match brokenRule? root with
      | some defect => .fail [.key "root"] defect
      | none => .good root

/-- The name of a document. -/
def checkName : Option Json → Checked String
  | none => .good "<script>"
  | some (.text s) => .good s
  | some _ => .fail [.key "name"] .notText

/-- The version of a document: the number one, in any type that has it. -/
def checkVersion : Option Json → Checked Unit
  | none => .good ()
  | some (.int n) => if n = 1 then .good () else .fail [.key "version"] .wrongVersion
  | some (.bool b) => if b then .good () else .fail [.key "version"] .wrongVersion
  | some (.real x) => if x == 1 then .good () else .fail [.key "version"] .wrongVersion
  | some _ => .fail [.key "version"] .wrongVersion

/-- The keys of a document. -/
def documentKeys : List String := ["name", "version", "root"]

/-- A value as a document. -/
def check : Json → Checked Document
  | .object members =>
    let fields := Json.ofMembers members
    let name := checkName (fields.get? "name")
    let version := checkVersion (fields.get? "version")
    let root := checkRoot (fields.get? "root")
    let document := (name.zipWith (fun n _ => n) version).zipWith
      (fun n r => { name := n, root := r }) root
    document.zipWith (fun d _ => d) (checkKeys documentKeys [] members)
  | _ => .fail [] .notObject

/-- The document that a text writes. -/
def parse (text : String) : Except LoadError Document :=
  match Json.read? text with
  | none => .error (.badDocument [⟨[], .malformed⟩])
  | some v =>
    match check v with
    | .good d => .ok d
    | .bad ps => .error (.badDocument ps)

mutual
/-- A node as a value. -/
def nodeJson : Node → Json
  | ⟨kind, lexeme, line, children⟩ =>
    .object [("type", .text kind.tag), ("lexeme", lexeme.elim .null .text), ("line", .int line),
      ("children", .array (nodesJson children))]

/-- Nodes as values. -/
def nodesJson : List Node → List Json
  | [] => []
  | n :: rest => nodeJson n :: nodesJson rest
end

/-- A document as a value. -/
def toJson (d : Document) : Json :=
  .object [("name", .text d.name), ("version", .int 1), ("root", nodeJson d.root)]

mutual
/-- Do all nodes of a tree stand on lines that exist? -/
def linesValid : Node → Bool
  | ⟨_, _, line, children⟩ => 0 ≤ line && allLinesValid children

/-- Do all nodes of several trees stand on lines that exist? -/
def allLinesValid : List Node → Bool
  | [] => true
  | n :: rest => linesValid n && allLinesValid rest
end

/-- The text of a document, if its tree keeps the rules. -/
def dump (d : Document) : Except (List Problem) String :=
  if linesValid d.root then
    match brokenRule? d.root with
    | some defect => .error [⟨[.key "root"], defect⟩]
    | none => .ok (toJson d).print
  else .error [⟨[.key "line"], .negative⟩]

end Document

end Cadence
