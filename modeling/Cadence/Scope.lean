/-
  SCOPES — which variables are seen from where.

  A frame binds names; frames stand one inside the other, and a name means the binding of the
  NEAREST frame that has one.  Here a chain of frames is a list, innermost first.  A snapshot shows
  everything that is seen: it walks from the outermost frame inwards, so that a name keeps the place
  where it was first met and takes the text of its nearest binding.

  `Forest` holds frames that several inner frames may share: each frame names the frame outside it,
  which must be older.
-/
import Cadence.Table

namespace Cadence

namespace Scope

variable {α : Type}

/-- The nearest binding of a name. -/
def lookup (name : String) : List (Table α) → Option α
  | [] => none
  | frame :: outer =>
    match frame.get? name with
    | some v => some v
    | none => lookup name outer

/-- A text as snapshots show it: at most eighty characters. -/
def clip (text : String) : String :=
  let cs := text.toList
  if 80 < cs.length then String.ofList (cs.take 77) ++ "..." else text

/-- How a snapshot shows a binding. -/
def shown (text : α → Option String) (v : α) : String := clip ((text v).getD "<none>")

/-- Everything that is seen from the innermost frame. -/
def snapshot (text : α → Option String) : List (Table α) → Table String
  | [] => .empty
  | frame :: outer =>
    frame.entries.foldl (fun t e => t.insert e.1 (shown text e.2)) (snapshot text outer)

/-- A name is seen from a chain when some frame of it binds the name. -/
theorem lookup_eq_none_iff {name : String} {frames : List (Table α)} :
    lookup name frames = none ↔ ∀ f ∈ frames, f.get? name = none := by
  induction frames with
  | nil => simp [lookup]
  | cons f outer ih => cases h : f.get? name <;> simp [lookup, h, ih]

/-- What a name means is bound in one of the frames. -/
theorem exists_of_lookup {name : String} {frames : List (Table α)} {v : α}
    (h : lookup name frames = some v) : ∃ f ∈ frames, f.get? name = some v := by
  induction frames with
  | nil => cases h
  | cons f outer ih =>
    unfold lookup at h
    split at h
    · next u hu =>
      cases h
      exact ⟨f, List.mem_cons_self, hu⟩
    · obtain ⟨g, hg, hv⟩ := ih h
      exact ⟨g, List.mem_cons_of_mem f hg, hv⟩

end Scope

/-! ## Frames that share outer frames -/

/-- A frame and the number of the frame outside it. -/
structure Branch (α : Type) where
  /-- The frame outside, if there is one. -/
  outer : Option Nat
  /-- What the frame binds. -/
  bindings : Table α := .empty

/-- Frames by number, in the order in which they were made. -/
structure Forest (α : Type) where
  /-- The frames. -/
  frames : List (Branch α) := []

namespace Forest

variable {α : Type}

/-- Makes a frame inside an older one, or outside all; answers its number. -/
def grow (f : Forest α) (outer : Option Nat) : Forest α × Nat :=
  (⟨f.frames ++ [{ outer := outer }]⟩, f.frames.length)

/-- Changes the bindings of a frame. -/
def alter (f : Forest α) (k : Nat) (change : Table α → Table α) : Forest α :=
  ⟨f.frames.modify k fun b => { b with bindings := change b.bindings }⟩

/-- The bindings seen from a frame, innermost first.  Only older frames are followed outwards. -/
def chain (f : Forest α) (k : Nat) : List (Table α) :=
  match f.frames[k]? with
  | none => []
  | some b =>
    match b.outer with
    | none => [b.bindings]
    | some j => if j < k then b.bindings :: f.chain j else [b.bindings]
termination_by k

/-- The number of frames outside a frame. -/
def depth (f : Forest α) (k : Nat) : Nat := (f.chain k).length - 1

end Forest

end Cadence
