/-
  LOADING extensions by path.

  An extension is named by the path of its file, by the bare name of a bundled one, or by a POINTER
  FILE that lists paths, one a line, with remarks behind a number sign.  Relative paths in a pointer
  file begin where the pointer file stands.  A bare name that is not a file here means the bundled
  extension of that name.

  An extension is registered when it is made for this version of the interface and has a way to
  register itself.
-/
import Cadence.Extension.Disk
import Cadence.Text.Lines
import Cadence.Text.Blank
import Cadence.Json.Shown
import Cadence.World.Registry

namespace Cadence.Extension

variable {m : Type → Type} [Monad m]

/-! ## Pointer files -/

/-- The path on a line of a pointer file, if it has one. -/
def pointerLine? (line : String) : Option String :=
  let path := Text.trim (String.ofList ((Text.trim line).toList.takeWhile (· ≠ '#')))
  if path = "" then none else some path

/-- The paths that the content of a pointer file lists, seen from its directory. -/
def pointers (directory content : String) : List String :=
  ((Text.lines content).filterMap pointerLine?).map fun path =>
    if Path.isAbsolute path then path else Path.absolute directory path

/-- The paths that a pointer file lists. -/
def readPointers (disk : Disk m) (path : String) : ExceptT ExtensionError m (List String) := do
  match ← disk.look path with
  | .file content => return pointers (Path.directory (Path.absolute disk.here path)) content
  | _ => throw (.pointerNotFound path)

/-! ## Names -/

/-- Does a text end in some letters, in any case? -/
def endsInFold (path ending : String) : Bool :=
  ending.toList.reverse.isPrefixOf (Text.fold path).toList.reverse

/-- The path of a bundled extension. -/
def bundledPath (disk : Disk m) (name : String) : String := Path.join disk.bundled (name ++ ".py")

/-- The path that a name means. -/
def resolve (disk : Disk m) (name : String) : m String := do
  let found ← disk.look name
  if found.exists_ || name.toList.contains '/' || endsInFold name ".py" then return name
  else return bundledPath disk name

/-- The paths that one name means; a pointer file means those that it lists. -/
def expand (disk : Disk m) (name : String) : ExceptT ExtensionError m (List String) := do
  if endsInFold name ".lsx" then readPointers disk name
  else return [← ExceptT.lift (resolve disk name)]

/-- The absolute paths that names mean, in order. -/
def gather (disk : Disk m) : List String → ExceptT ExtensionError m (List String)
  | [] => return []
  | name :: rest => do
    let paths ← expand disk name
    return paths.map (Path.absolute disk.here) ++ (← gather disk rest)

/-! ## Registration -/

/-- What an extension offers under the name of its entry. -/
inductive Entry (ι : Type) where
  /-- Something that registers the extension, given the name it goes by. -/
  | callable (register : (name : String) → Registry ι → Except ExtensionError (Registry ι))
  /-- Nothing that can be called. -/
  | none

/-- What an extension says of itself before it is registered. -/
structure Description (ι : Type) where
  /-- Its name if it gives none. -/
  fallback : String
  /-- The name it gives. -/
  name : Option Json := none
  /-- The version of the interface that it is made for. -/
  interface : Json := .int interfaceVersion
  /-- Its entry. -/
  entry : Entry ι

/-- The name that an extension goes by. -/
def Description.calledBy {ι : Type} (d : Description ι) : String :=
  (d.name.map Json.shown).getD d.fallback

/-- Registers an extension. -/
def register {ι : Type} (r : Registry ι) (d : Description ι) : Except ExtensionError (Registry ι) :=
  if !d.interface.equals interfaceVersion then
    .error (.wrongInterface d.fallback d.interface.shown)
  else
    match d.entry with
    | .none => .error (.noEntry d.fallback)
    | .callable f => f d.calledBy r

/-- The bundled extension. -/
def bundledDescription {ι : Type} : Description ι :=
  { fallback := "flow", name := some (.text "flow")
    entry := .callable fun _ r => .ok r.addBundled }

/-- The extension at an absolute path.  Only the bundled one is known. -/
def load {ι : Type} (disk : Disk m) (path : String) : ExceptT ExtensionError m (Description ι) := do
  let found ← disk.look path
  if !found.exists_ then throw (.notFound path)
  else if Path.same path (bundledPath disk "flow") then return bundledDescription
  else throw (.unloadable path)

/-- Loads and registers the extensions at absolute paths, in order. -/
def loadAll {ι : Type} (disk : Disk m) (r : Registry ι) :
    List String → ExceptT ExtensionError m (Registry ι)
  | [] => return r
  | path :: rest => do
    let d ← load disk path
    match register r d with
    | .error e => throw e
    | .ok r' => loadAll disk r' rest

/-- The registry with the extensions that names mean. -/
def services {ι : Type} (disk : Disk m) (names : List String) :
    ExceptT ExtensionError m (Registry ι) := do
  loadAll disk {} (← gather disk names)

end Cadence.Extension
