/-
  SWITCHES — the arguments of the command line that begin with a dash.

  Every argument has a FORM that depends on itself alone, except that behind a double dash all
  arguments are plain.  A switch may be shortened as long as only one fits.  A value may be joined
  to its switch: behind an equals sign, or directly behind a switch of a single letter.  Negative
  numbers, and texts with spaces that fit no switch, are plain although they begin with a dash.
-/
import Cadence.Text.Digit

namespace Cadence.CommandLine

/-- What a switch asks for. -/
inductive Switch where
  /-- An explanation of the command line. -/
  | help
  /-- The document is the argument itself and not a file. -/
  | literal
  /-- An extension is loaded. -/
  | extension
  /-- The milliseconds between ticks. -/
  | rest
  /-- The number of ticks after which the script is stopped. -/
  | cap
  /-- Tracebacks show variables. -/
  | verbose
  /-- Tracebacks are also written as JSON. -/
  | json
deriving Repr, DecidableEq

namespace Switch

/-- The spellings of the switches. -/
def spellings : List (String × Switch) :=
  [("-h", .help), ("--help", .help), ("-source", .literal), ("--source", .literal),
   ("-e", .extension), ("--ext", .extension), ("--tick-ms", .rest), ("--max-ticks", .cap),
   ("-verbose", .verbose), ("--verbose", .verbose), ("--traceback-json", .json)]

/-- Does a value follow the switch? -/
def takesValue : Switch → Bool
  | .extension | .rest | .cap => true
  | _ => false

/-- The switch of a spelling. -/
def ofSpelling? (spelling : List Char) : Option Switch :=
  spellings.lookup (String.ofList spelling)

end Switch

/-- What is joined to a switch in the same argument. -/
structure Tail where
  /-- Is it set off by an equals sign? -/
  marked : Bool
  /-- What is joined. -/
  content : List Char
deriving Repr, DecidableEq

/-- How an argument reads. -/
inductive Form where
  /-- It stands for itself. -/
  | plain
  /-- It makes all later arguments plain. -/
  | divider
  /-- It is a switch, spelled with one dash or with two. -/
  | switch (dashes : Nat) (s : Switch) (tail : Option Tail)
  /-- It looks like a switch but is none. -/
  | unknown
deriving Repr, DecidableEq

namespace Form

/-- The dashes in front of a spelling. -/
def dashes (spelling : List Char) : Nat := (spelling.takeWhile (· = '-')).length

/-- A text before its first equals sign, and behind it. -/
def cut (cs : List Char) : List Char × Option Tail :=
  (cs.takeWhile (· ≠ '='),
    match cs.dropWhile (· ≠ '=') with
    | _ :: content => some { marked := true, content }
    | [] => none)

/-- How an argument reads if it is a given switch, shortened or joined with a value. -/
def fit? (arg : List Char) (spelling : List Char) (s : Switch) : Option Form :=
  if 2 ≤ dashes arg then
    let (name, tail) := cut arg
    if name.isPrefixOf spelling then some (.switch (dashes spelling) s tail) else none
  else if spelling = arg.take 2 then
    some (.switch (dashes spelling) s (some { marked := false, content := arg.drop 2 }))
  else if arg.isPrefixOf spelling then some (.switch (dashes spelling) s none)
  else none

/-- The readings of an argument as a shortened or joined switch. -/
def fits (arg : List Char) : List Form :=
  Switch.spellings.filterMap fun p => fit? arg p.1.toList p.2

/-- A text without a line break at its end. -/
def dropBreak (cs : List Char) : List Char :=
  if cs.getLast? = some '\n' then cs.dropLast else cs

/-- Is this a digit of any script? -/
def isAnyDigit (c : Char) : Bool := (Text.digitValue? c).isSome

/-- Do the characters behind a dash write a number? -/
def isNumber (cs : List Char) : Bool :=
  match cs.dropWhile isAnyDigit with
  | [] => !cs.isEmpty
  | '.' :: ds => !ds.isEmpty && ds.all isAnyDigit
  | _ => false

/-- The form of an argument that begins with a dash, by the switches that fit it; nothing if more
than one does. -/
def ofFits? (arg : List Char) : Option Form :=
  match fits arg with
  | [f] => some f
  | _ :: _ :: _ => none
  | [] =>
    if isNumber (dropBreak arg.tail) || arg.contains ' ' then some .plain else some .unknown

/-- The form of an argument that begins with a dash and is no spelling as a whole.  A spelling in
front of an equals sign counts before everything that fits. -/
def ofDashed? (arg : List Char) : Option Form :=
  match cut arg with
  | (name, some tail) =>
    match Switch.ofSpelling? name with
    | some s => some (.switch (dashes name) s (some tail))
    | none => ofFits? arg
  | (_, none) => ofFits? arg

/-- The form of an argument; nothing if more than one switch fits. -/
def of? (arg : List Char) : Option Form :=
  match arg with
  | '-' :: rest =>
    if rest = ['-'] then some .divider
    else match Switch.ofSpelling? arg with
      | some s => some (.switch (dashes arg) s none)
      | none => if rest.isEmpty then some .plain else ofDashed? arg
  | _ => some .plain

/-- The forms of arguments, in order; the first argument that more than one switch fits is an
error. -/
def ofAll : List String → Except String (List (String × Form))
  | [] => .ok []
  | arg :: rest =>
    match of? arg.toList with
    | none => .error arg
    | some .divider => .ok ((arg, .divider) :: rest.map fun a => (a, .plain))
    | some f => (ofAll rest).map ((arg, f) :: ·)

/-! ## Readings of the definitions -/

example : of? "--so".toList = some (.switch 2 .literal none) := by decide +kernel
example : of? "--t".toList = none := by decide +kernel
example : of? "-eflow".toList = some (.switch 1 .extension (some ⟨false, "flow".toList⟩)) := by
  decide +kernel
example : of? "-1.5".toList = some .plain ∧ of? "-x".toList = some .unknown := by decide +kernel

end Form

end Cadence.CommandLine
