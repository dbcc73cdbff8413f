/-
  OPTIONS — what the command line asks for as a whole.

  The arguments are read from left to right by a machine of small steps.  Its state is a DRAFT:
  what is asked for so far, and the switch that still waits for its value.  One plain argument is
  the document; a double dash may stand before or behind it.  Switches of a single letter may be
  joined in one argument.

  Asking for help ends the reading at once.  Arguments that are left over are an error only when
  all others have been read.
-/
import Cadence.CommandLine.Switch
import Cadence.Number.Reading

namespace Cadence.CommandLine

/-! ## What can be wrong -/

/-- What is wrong with a command line. -/
inductive Misuse where
  /-- More than one switch fits an argument. -/
  | ambiguous (arg : String)
  /-- A switch lacks its value. -/
  | valueMissing (s : Switch)
  /-- A switch that takes no value has one. -/
  | valueUnwanted (s : Switch)
  /-- A value is not a number of the wanted form. -/
  | notNumber (s : Switch) (value : String)
  /-- There is no document. -/
  | noDocument
  /-- Arguments are left over. -/
  | leftOver (args : List String)
deriving Repr, DecidableEq

/-- Why a command line is not carried out. -/
inductive Refusal where
  /-- It asks for help. -/
  | help
  /-- Something is wrong with it. -/
  | misuse (why : Misuse)
deriving Repr, DecidableEq

/-- The exit code of a refusal. -/
def Refusal.code : Refusal → Nat
  | .help => 0
  | .misuse _ => 2

/-- The longest spelling of a switch. -/
def Switch.word (s : Switch) : String :=
  ((Switch.spellings.filter fun p => p.2 = s).getLast?.map Prod.fst).getD ""

/-- The wording of a misuse. -/
def Misuse.message : Misuse → String
  | .ambiguous arg => "more than one option fits " ++ arg
  | .valueMissing s => s.word ++ " needs a value"
  | .valueUnwanted s => s.word ++ " takes no value"
  | .notNumber s value => s.word ++ " needs a number, not " ++ value
  | .noDocument => "a document is needed"
  | .leftOver args => "not understood: " ++ " ".intercalate args

/-! ## Options -/

/-- What the switches ask for. -/
structure Settings where
  /-- Is the document the argument itself and not a file? -/
  literal : Bool := false
  /-- The extensions, in order. -/
  extensions : List String := []
  /-- The milliseconds between ticks. -/
  rest : Float := 50
  /-- The number of ticks after which the script is stopped. -/
  cap : Option Int := none
  /-- Do tracebacks show variables? -/
  verbose : Bool := false
  /-- Are tracebacks also written as JSON? -/
  json : Bool := false

/-- Carries out a switch with its value. -/
def Settings.obey (o : Settings) (s : Switch) (value : String) : Except Refusal Settings :=
  match s with
  | .help => .error .help
  | .literal => .ok { o with literal := true }
  | .extension => .ok { o with extensions := o.extensions ++ [value] }
  | .rest =>
    match real? value with
    | some rest => .ok { o with rest }
    | none => .error (.misuse (.notNumber s value))
  | .cap =>
    match givenInt? value with
    | some n => .ok { o with cap := some n }
    | none => .error (.misuse (.notNumber s value))
  | .verbose => .ok { o with verbose := true }
  | .json => .ok { o with json := true }

/-- What a command line asks for. -/
structure Options extends Settings where
  /-- The document: the path of its file, or its text. -/
  document : String

/-! ## The switches of one argument -/

/-- How the switches joined in one argument end. -/
inductive Ending where
  /-- With a switch and its value. -/
  | value (s : Switch) (value : String)
  /-- With a switch whose value is the next argument. -/
  | awaits (s : Switch)
  /-- With something that is no switch. -/
  | unused (text : String)
  /-- With a switch that takes no value. -/
  | nothing
deriving Repr, DecidableEq

/-- The switches joined in one argument. -/
structure Cluster where
  /-- The switches without values, in order. -/
  flags : List Switch := []
  /-- What comes after them. -/
  ending : Ending
deriving Repr, DecidableEq

namespace Cluster

/-- A switch with nothing joined to it. -/
def single (s : Switch) : Cluster :=
  if s.takesValue then { ending := .awaits s } else { flags := [s], ending := .nothing }

/-- A switch without a value in front of others. -/
def after (s : Switch) (c : Cluster) : Cluster := { c with flags := s :: c.flags }

/-- A switch with something joined to it: its value, or more switches of a single letter. -/
def joined (dashes : Nat) (s : Switch) (marked : Bool) : List Char → Except Misuse Cluster
  | [] => if s.takesValue then .ok { ending := .value s "" } else .error (.valueUnwanted s)
  | c :: more =>
    if s.takesValue then .ok { ending := .value s (String.ofList (c :: more)) }
    else if 2 ≤ dashes ∨ marked ∨ c = '-' then .error (.valueUnwanted s)
    else match Switch.ofSpelling? ['-', c] with
      | none => .ok { flags := [s], ending := .unused (String.ofList ('-' :: c :: more)) }
      | some t =>
        match more with
        | [] => .ok ((single t).after s)
        | d :: value =>
          if d = '=' then (joined 1 t true value).map (after s)
          else (joined 1 t false (d :: value)).map (after s)

/-- The switches of an argument. -/
def ofForm (dashes : Nat) (s : Switch) : Option Tail → Except Misuse Cluster
  | none => .ok (single s)
  | some tail => joined dashes s tail.marked tail.content

end Cluster

/-! ## The machine -/

/-- What is read of a command line so far. -/
structure Draft where
  /-- What the switches ask for. -/
  settings : Settings := {}
  /-- The document. -/
  document : Option String := none
  /-- Was the document the last argument? -/
  atDocument : Bool := false
  /-- The switch that waits for its value, and the switches before it in its argument. -/
  awaiting : Option (List Switch × Switch) := none
  /-- The arguments that are left over. -/
  leftOver : List String := []

namespace Draft

/-- Carries out switches without values. -/
def obeyAll (o : Settings) (flags : List Switch) : Except Refusal Settings :=
  flags.foldlM (fun o s => o.obey s "") o

/-- Leaves an argument over. -/
def leave (d : Draft) (arg : String) : Draft :=
  { d with leftOver := d.leftOver ++ [arg], atDocument := false }

/-- Reads the switches of an argument. -/
def readCluster (d : Draft) (c : Cluster) : Except Refusal Draft :=
  match c.ending with
  | .awaits s => .ok { d with awaiting := some (c.flags, s), atDocument := false }
  | .value s value => do
    let settings ← (← obeyAll d.settings c.flags).obey s value
    return { d with settings, atDocument := false }
  | .unused text => do return { d with settings := ← obeyAll d.settings c.flags }.leave text
  | .nothing => do return { d with settings := ← obeyAll d.settings c.flags, atDocument := false }

/-- Reads an argument while no switch waits. -/
def readFree (d : Draft) (arg : String) : Form → Except Refusal Draft
  | .plain =>
    match d.document with
    | none => .ok { d with document := some arg, atDocument := true }
    | some _ => .ok (d.leave arg)
  | .divider =>
    .ok (if d.document.isNone ∨ d.atDocument then { d with atDocument := false } else d.leave arg)
  | .switch dashes s tail =>
    match Cluster.ofForm dashes s tail with
    | .ok c => d.readCluster c
    | .error why => .error (.misuse why)
  | .unknown => .ok (d.leave arg)

/-- Reads an argument. -/
def read (d : Draft) (item : String × Form) : Except Refusal Draft :=
  match d.awaiting with
  | none => d.readFree item.1 item.2
  | some (flags, s) =>
    if item.2 = .plain then do
      let settings ← (← obeyAll d.settings flags).obey s item.1
      return { d with settings, awaiting := none }
    else .error (.misuse (.valueMissing s))

/-- What is asked for, when all arguments are read. -/
def finish (d : Draft) : Except Refusal Options :=
  match d.awaiting, d.document with
  | some (_, s), _ => .error (.misuse (.valueMissing s))
  | none, none => .error (.misuse .noDocument)
  | none, some document =>
    if d.leftOver.isEmpty then .ok { d.settings with document }
    else .error (.misuse (.leftOver d.leftOver))

end Draft

/-- What a command line asks for. -/
def Options.ofArguments (args : List String) : Except Refusal Options :=
  match Form.ofAll args with
  | .error arg => .error (.misuse (.ambiguous arg))
  | .ok items => (items.foldlM Draft.read {}).bind Draft.finish

/-! ## Readings of the definitions -/

/-- The refusal of a command line, if it is refused. -/
def refusal? (args : List String) : Option Refusal :=
  match Options.ofArguments args with
  | .ok _ => none
  | .error r => some r

example : refusal? ["-eflow", "d"] = none ∧ refusal? ["-he", "flow"] = some .help := by
  decide +kernel
example : refusal? ["d", "--", "-h"] = some (.misuse (.leftOver ["-h"])) := by decide +kernel
example : refusal? ["--help", "--t"] = some (.misuse (.ambiguous "--t")) := by decide +kernel

end Cadence.CommandLine
