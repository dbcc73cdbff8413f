/-
  RESOLVING arguments.

  An argument means what its text is bound to in its script, and that again is an argument: the
  chain is followed until a text is not bound, is bound to itself, or is missing.  What stands at
  the end of the chain is read as the wanted kind of value.  Only for the number of an object one
  more question comes before the reading: whether the last text is an alias.

  Bindings may form a circle.  A chain that is longer than the number of all bindings has met one of
  them twice, so this number bounds the search.
-/
import Cadence.World.Stores
import Cadence.Value.Literal

namespace Cadence

namespace World

variable {σ ι : Type}

/-- The number of bindings in the frames of a script. -/
def bindingsOf (s : Script ι) : Nat := (s.frames.bindings.map Table.size).foldr (· + ·) 0

/-- The number of bindings in all frames of all scripts. -/
def bindingCount (w : World σ ι) : Nat := (w.scripts.toList.map bindingsOf).foldr (· + ·) 0

/-- The argument that a text of an argument is bound to; a text bound to itself is not. -/
def boundTo? (w : World σ ι) (a : Argument) : Option Argument :=
  match a.lexeme with
  | none => none
  | some name =>
    match (w.script a.owner).lookup name with
    | none => none
    | some b => if b.lexeme = some name then none else some b

/-- The end of a chain of bindings, if it is reached within a number of steps. -/
def follow? (w : World σ ι) : (steps : Nat) → Argument → Option Argument
  | 0, _ => none
  | steps + 1, a =>
    match w.boundTo? a with
    | none => some a
    | some b => w.follow? steps b

/-- The end of the chain of bindings that starts at an argument. -/
def resolve (w : World σ ι) (a : Argument) : Except Fault Argument :=
  match w.follow? (w.bindingCount + 1) a with
  | some e => .ok e
  | none => .error (.trouble .cycle)

/-- The end of a chain, with its text. -/
def resolveText (w : World σ ι) (reading : Reading) (a : Argument) :
    Except Fault (String × Site) :=
  match w.resolve a with
  | .error fault => .error fault
  | .ok e =>
    match e.lexeme with
    | none => .error (.at (some e.site) (.absent reading))
    | some t => .ok (t, e.site)

/-- The value of an argument under a reading of texts. -/
def read {α : Type} (w : World σ ι) (reading : Reading)
    (convert : Option String → Option Site → Except Fault α) (a : Argument) : Except Fault α :=
  match w.resolveText reading a with
  | .error fault => .error fault
  | .ok (t, site) => convert (some t) (some site)

/-- An argument as a signed number of 32 bits. -/
def asInt (w : World σ ι) : Argument → Except Fault Int := w.read .int Literal.toInt

/-- An argument as an unsigned number of 32 bits. -/
def asUInt (w : World σ ι) : Argument → Except Fault Int := w.read .uint Literal.toUInt

/-- An argument as an unsigned number of 16 bits. -/
def asUShort (w : World σ ι) : Argument → Except Fault Int := w.read .ushort Literal.toUShort

/-- An argument as a real. -/
def asDouble (w : World σ ι) : Argument → Except Fault Float := w.read .double Literal.toDouble

/-- An argument as a truth value. -/
def asBool (w : World σ ι) : Argument → Except Fault Bool := w.read .bool Literal.toBool

/-- An argument as a text. -/
def asString (w : World σ ι) (a : Argument) : Except Fault String :=
  (w.resolveText .string a).map Prod.fst

end World

/-- The text of an argument as it is written. -/
def Argument.text (a : Argument) : Except Fault String :=
  match a.lexeme with
  | some t => .ok t
  | none => .error (.at (some a.site) .noLexeme)

namespace ScriptM

variable {σ ι : Type}

/-- Reads an argument in the present world. -/
def reading {α : Type} (f : World σ ι → Except Fault α) : ScriptM σ ι α := do lift (f (← get))

/-- An argument as the number of an object: an alias, or an unsigned number of 32 bits. -/
def asSerial (host : Host σ ι) (a : Argument) : ScriptM σ ι Value := do
  let (t, site) ← reading fun w => w.resolveText .serial a
  match ← getAlias host t with
  | .null => return .int (← lift (Literal.toUInt (some t) (some site)))
  | v => return v

/-- Would an argument be the number of an object?  Only a refusal means that it would not. -/
def isSerial (host : Host σ ι) (a : Argument) : ScriptM σ ι Bool := do
  let e ← reading fun w => w.resolve a
  match e.lexeme with
  | none => return false
  | some t =>
    match ← getAlias host t with
    | .null =>
      match Literal.toUInt (some t) (some e.site) with
      | .ok _ => return true
      | .error (.script _) => return false
      | .error fault => throw fault
    | _ => return true

end ScriptM

end Cadence
