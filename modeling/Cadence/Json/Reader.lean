/-
  READING JSON with a stack.

  The reader walks over the tokens once.  It keeps the arrays and objects that are open, innermost
  first, and what may come next; each token either moves it on or is refused.  A text is read when
  the last token completes a value and nothing is open.  At most 201 arrays and objects may be open
  at once.
-/
import Cadence.Json.Token

namespace Cadence.Json

/-- An array or an object that is open. -/
inductive Frame where
  /-- An array with its items so far, last first. -/
  | items (done : List Json)
  /-- An object between two members, with its members so far, last first. -/
  | members (done : List (String × Json))
  /-- An object inside a member, whose key is read. -/
  | member (done : List (String × Json)) (key : String)
deriving Repr

/-- What may come next. -/
inductive Mode where
  /-- A value. -/
  | value
  /-- A value, or the end of an array that has just been opened. -/
  | valueOrClose
  /-- A key. -/
  | key
  /-- A key, or the end of an object that has just been opened. -/
  | keyOrClose
  /-- The colon after a key. -/
  | colon
  /-- Whatever follows a complete value. -/
  | complete (v : Json)
deriving Repr

/-- The state of the reader. -/
structure Machine where
  /-- What is open, innermost first. -/
  stack : List Frame := []
  /-- What may come next. -/
  mode : Mode := .value
deriving Repr

/-- The number of arrays and objects that may be open at once. -/
def depthLimit : Nat := 201

namespace Machine

/-- A value begins. -/
def begin (limit : Nat) (stack : List Frame) : Token → Option Machine
  | .atom v => some ⟨stack, .complete v⟩
  | .text s => some ⟨stack, .complete (.text s)⟩
  | .openArray => if stack.length < limit then some ⟨.items [] :: stack, .valueOrClose⟩ else none
  | .openObject => if stack.length < limit then some ⟨.members [] :: stack, .keyOrClose⟩ else none
  | _ => none

/-- The reader takes one token. -/
def step (limit : Nat) (m : Machine) (t : Token) : Option Machine :=
  match m.mode, t, m.stack with
  | .value, t, stack => begin limit stack t
  | .valueOrClose, .closeArray, .items done :: stack =>
    some ⟨stack, .complete (.array done.reverse)⟩
  | .valueOrClose, t, stack => begin limit stack t
  | .keyOrClose, .closeObject, .members done :: stack =>
    some ⟨stack, .complete (.object done.reverse)⟩
  | .keyOrClose, .text k, .members done :: stack => some ⟨.member done k :: stack, .colon⟩
  | .key, .text k, .members done :: stack => some ⟨.member done k :: stack, .colon⟩
  | .colon, .colon, stack => some ⟨stack, .value⟩
  | .complete v, .comma, .items done :: stack => some ⟨.items (v :: done) :: stack, .value⟩
  | .complete v, .closeArray, .items done :: stack =>
    some ⟨stack, .complete (.array (v :: done).reverse)⟩
  | .complete v, .comma, .member done k :: stack => some ⟨.members ((k, v) :: done) :: stack, .key⟩
  | .complete v, .closeObject, .member done k :: stack =>
    some ⟨stack, .complete (.object ((k, v) :: done).reverse)⟩
  | _, _, _ => none

/-- The reader takes tokens in order. -/
def run (limit : Nat) (m : Machine) : List Token → Option Machine
  | [] => some m
  | t :: rest => (m.step limit t).bind fun m' => m'.run limit rest

/-- The value of a reader that is done. -/
def result? : Machine → Option Json
  | ⟨[], .complete v⟩ => some v
  | _ => none

theorem run_append (limit : Nat) (m : Machine) (a b : List Token) :
    m.run limit (a ++ b) = (m.run limit a).bind fun m' => m'.run limit b := by
  induction a generalizing m with
  | nil => rfl
  | cons t rest ih =>
    simp only [List.cons_append, run]
    cases m.step limit t with
    | none => rfl
    | some m' => simp [ih]

end Machine

/-- The value that a text writes, with at most `limit` arrays and objects open at once. -/
def read? (s : String) (limit : Nat := depthLimit) : Option Json :=
  (tokens s).bind fun ts => (({} : Machine).run limit ts).bind Machine.result?

end Cadence.Json
