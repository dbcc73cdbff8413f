/-
  A TABLE holds values under names and remembers the order in which the names came.

  Scopes, stores and registries all answer two questions about their entries: what stands under a
  name, and in which order the names appear when everything is listed.  A `Table` keeps its
  entries in the order in which their names were FIRST entered: writing under a present name
  changes the value in place, erasing a name forgets its place, and a name entered again after
  that goes to the end.

  The view is `get?`.  Each operation has one lemma saying what it does to the view, so that
  later proofs never unfold an operation.
-/
namespace Cadence

/-- Values under names, in the order in which the names were first entered. -/
structure Table (α : Type) where
  /-- The pairs of name and value, oldest name first. -/
  entries : List (String × α) := []
deriving Repr

namespace Table

variable {α β : Type}

instance : Inhabited (Table α) := ⟨{}⟩

/-- The table with nothing in it. -/
def empty : Table α := {}

/-- The value of the first pair that has the name. -/
def find (name : String) : List (String × α) → Option α
  | [] => none
  | (n, v) :: rest => if n = name then some v else find name rest

/-- What stands under a name. -/
def get? (t : Table α) (name : String) : Option α := find name t.entries

/-- Does the table have an entry under this name? -/
def contains (t : Table α) (name : String) : Bool := (t.get? name).isSome

/-- Replaces the value under a present name, or puts the pair at the end. -/
def put (name : String) (value : α) : List (String × α) → List (String × α)
  | [] => [(name, value)]
  | (n, v) :: rest => if n = name then (n, value) :: rest else (n, v) :: put name value rest

/-- Writes a value under a name; a present name keeps its place. -/
def insert (t : Table α) (name : String) (value : α) : Table α := ⟨put name value t.entries⟩

/-- Removes the entry under a name, if there is one. -/
def erase (t : Table α) (name : String) : Table α := ⟨t.entries.filter fun e => e.1 ≠ name⟩

/-- The names, oldest first. -/
def names (t : Table α) : List String := t.entries.map Prod.fst

/-- The number of entries. -/
def size (t : Table α) : Nat := t.entries.length

/-- Applies a function to the value under a name, if there is one. -/
def update (t : Table α) (name : String) (f : α → α) : Table α :=
  match t.get? name with
  | some v => t.insert name (f v)
  | none => t

/-! ## The view -/

@[simp] theorem get?_empty (name : String) : (empty : Table α).get? name = none := rfl

theorem find_put (name other : String) (value : α) (es : List (String × α)) :
    find other (put name value es) = if name = other then some value else find other es := by
  induction es with
  | nil => simp [put, find]
  | cons e rest ih =>
    obtain ⟨n, v⟩ := e
    by_cases h : n = name
    · subst h
      by_cases ho : n = other <;> simp [put, find, ho]
    · by_cases ho : n = other
      · subst ho
        have : name ≠ n := fun hn => h hn.symm
        simp [put, find, h, this]
      · simp [put, find, h, ho, ih]

/-- After a write the name has the value, and every other name what it had. -/
@[simp] theorem get?_insert (t : Table α) (name other : String) (value : α) :
    (t.insert name value).get? other = if name = other then some value else t.get? other :=
  find_put name other value t.entries

theorem find_filter (name other : String) (es : List (String × α)) :
    find other (es.filter fun e => e.1 ≠ name) = if name = other then none else find other es := by
  induction es with
  | nil => simp [find]
  | cons e rest ih =>
    obtain ⟨n, v⟩ := e
    by_cases h : n = name
    · subst h
      by_cases ho : n = other
      · subst ho; simpa [find] using ih
      · simpa [find, ho] using ih
    · by_cases ho : n = other
      · subst ho
        have : name ≠ n := fun hn => h hn.symm
        simp [find, h, this]
      · simpa [find, h, ho] using ih

/-- After an erasure the name has nothing, and every other name what it had. -/
@[simp] theorem get?_erase (t : Table α) (name other : String) :
    (t.erase name).get? other = if name = other then none else t.get? other :=
  find_filter name other t.entries

/-- What stands under a name stands there with the name. -/
theorem mem_names {t : Table α} {name : String} {value : α} (h : t.get? name = some value) :
    name ∈ t.names := by
  obtain ⟨entries⟩ := t
  induction entries with
  | nil => cases h
  | cons e rest ih =>
    obtain ⟨n, v⟩ := e
    by_cases hn : n = name
    · exact List.mem_cons.mpr (.inl hn.symm)
    · have hrest : (⟨rest⟩ : Table α).get? name = some value := by
        unfold get? find at h
        rwa [if_neg hn] at h
      exact List.mem_cons_of_mem n (ih hrest)

/-! ## What holds of all values -/

/-- All values of a table satisfy a condition. -/
def All (p : α → Prop) (t : Table α) : Prop := ∀ name value, t.get? name = some value → p value

namespace All

variable {p : α → Prop} {t : Table α}

theorem empty : (Table.empty : Table α).All p := fun _ _ h => nomatch h

theorem insert (h : t.All p) {value : α} (hv : p value) (name : String) :
    (t.insert name value).All p := by
  intro other v hother
  rw [get?_insert] at hother
  split at hother
  · cases hother
    exact hv
  · exact h other v hother

theorem erase (h : t.All p) (name : String) : (t.erase name).All p := by
  intro other v hother
  rw [get?_erase] at hother
  split at hother
  · cases hother
  · exact h other v hother

theorem update (h : t.All p) {f : α → α} (hf : ∀ v, p v → p (f v)) (name : String) :
    (t.update name f).All p := by
  unfold Table.update
  split
  · next v hv => exact h.insert (hf v (h name v hv)) name
  · exact h

end All

end Table

end Cadence
