/-
  SHOWING what is seen.

  A name is looked for from the innermost scope outwards, and the search stops at the first binding;
  a snapshot is written from the outermost scope inwards, and every binding overwrites.  They agree
  (`Scope.get?_snapshot`), and the snapshot lists a name where the walk inwards first meets it
  (`Scope.names_snapshot`).

  Scopes share outer scopes, so a change of one scope is seen from many.  Which scopes are met on the
  way outwards (`Forest.outwards`) does not depend on bindings, and along that way a change of one
  scope is one lemma for each kind of change:

      set    the new value is seen exactly where no nearer scope binds the name;
      clear  exactly there the name means what it means outside the changed scope.

  A history tells since which operation a scope binds a name (`Scoping.born`).  `Forest.Grown` are the
  forests that a history can make, and the crux is its invariant `Forest.Grown.timed`: each scope
  holds the names that are bound since some operation, in the order of these operations.

  The headline is `Forest.Grown.sees`.
-/
import Cadence.Scope
import Cadence.Proofs.Scopes.Names

namespace Cadence

/-! ## A chain of scopes -/

namespace Scope

variable {α : Type}

/-- A text of up to eighty characters is shown as it is. -/
theorem clip_of_short {t : String} (h : t.length ≤ 80) : clip t = t := by
  unfold clip
  simp only [String.length_toList, if_neg (Nat.not_lt_of_le h)]

/-- Of a longer one the first seventy-seven are shown, and three dots. -/
theorem clip_of_long {t : String} (h : 80 < t.length) :
    clip t = String.ofList (t.toList.take 77) ++ "..." := by
  unfold clip
  simp only [String.length_toList, if_pos h]

/-- **A snapshot agrees with the search**: it shows for a name the nearest binding. -/
theorem get?_snapshot (text : α → Option String) {frames : List (Table α)}
    (h : ∀ t ∈ frames, t.names.Nodup) (name : String) :
    (snapshot text frames).get? name = (lookup name frames).map (shown text) := by
  induction frames with
  | nil => rfl
  | cons frame outer ih =>
    rw [snapshot, Table.get?_foldl_insert _ (h frame List.mem_cons_self),
      ih fun t ht => h t (List.mem_cons_of_mem frame ht), lookup]
    show ((frame.get? name).map _).or _ = _
    cases frame.get? name <;> rfl

/-- What is bound nearer is seen before what is bound further outside. -/
theorem lookup_append (name : String) (nearer outer : List (Table α)) :
    lookup name (nearer ++ outer) = (lookup name nearer).or (lookup name outer) := by
  induction nearer with
  | nil => rfl
  | cons frame nearer ih =>
    rw [List.cons_append, lookup, lookup, ih]
    cases frame.get? name <;> rfl

/-- A snapshot lists the names as the walk from the outermost scope inwards meets them first. -/
theorem names_snapshot (text : α → Option String) (frames : List (Table α)) :
    (snapshot text frames).names = (frames.reverse.flatMap Table.names).eraseDups := by
  induction frames with
  | nil => rfl
  | cons frame outer ih =>
    rw [snapshot, Table.names_foldl_insert _ _ ih, List.reverse_cons, List.flatMap_append,
      List.flatMap_singleton]
    rfl

end Scope

/-! ## The scopes on the way outwards -/

namespace Forest

variable {α : Type}

/-- The scope outside a scope. -/
def outer? (f : Forest α) (k : Nat) : Option Nat := f.frames[k]?.bind Branch.outer

/-- What a scope binds itself. -/
def bindings (f : Forest α) (k : Nat) : Table α := (f.frames[k]?.map Branch.bindings).getD .empty

/-- The scopes that are met from a scope outwards, itself first. -/
def outwards (f : Forest α) (k : Nat) : List Nat :=
  match f.outer? k with
  | none => [k]
  | some j => if j < k then k :: f.outwards j else [k]
termination_by k

/-- From some scopes, the nearest first, a name is looked for as far as scope `k`: no scope before
it binds the name. -/
def Reaches (f : Forest α) (name : String) (scopes : List Nat) (k : Nat) : Prop :=
  ∃ nearer rest, scopes = nearer ++ k :: rest ∧ ∀ i ∈ nearer, (f.bindings i).get? name = none

/-- The chain of a scope are the bindings of the scopes that are met from it outwards. -/
theorem chain_eq (f : Forest α) {k : Nat} (hk : k < f.frames.length) :
    f.chain k = (f.outwards k).map f.bindings := by
  induction k using Nat.strongRecOn with
  | ind k ih =>
    have hget : f.frames[k]? = some f.frames[k] := List.getElem?_eq_getElem hk
    have hbind : f.bindings k = f.frames[k].bindings := by simp [bindings, hget]
    have houter : f.outer? k = f.frames[k].outer := by simp [outer?, hget]
    rw [chain, outwards, hget, houter]
    cases hout : f.frames[k].outer with
    | none => simp [hbind, hout]
    | some j =>
      by_cases hj : j < k
      · simp [hj, hbind, hout, ih j hj (Nat.lt_trans hj hk)]
      · simp [hj, hbind, hout]

/-- The way outwards begins at the scope, and goes on from the scope outside it. -/
theorem outwards_cases (f : Forest α) (k : Nat) :
    f.outwards k = [k] ∨
      ∃ j, f.outer? k = some j ∧ j < k ∧ f.outwards k = k :: f.outwards j := by
  rw [outwards]
  cases f.outer? k with
  | none => exact .inl rfl
  | some j =>
    by_cases hj : j < k
    · exact .inr ⟨j, rfl, hj, by simp [hj]⟩
    · exact .inl (by simp [hj])

/-- The way outwards leads to older scopes only. -/
theorem le_of_mem_outwards {f : Forest α} {k i : Nat} (h : i ∈ f.outwards k) : i ≤ k := by
  induction k using Nat.strongRecOn with
  | ind k ih =>
    obtain heq | ⟨j, -, hj, heq⟩ := f.outwards_cases k
    · rw [heq] at h
      exact Nat.le_of_eq (List.mem_singleton.mp h)
    · rw [heq] at h
      obtain rfl | hrest := List.mem_cons.mp h
      · exact Nat.le_refl _
      · exact Nat.le_of_lt (Nat.lt_of_le_of_lt (ih j hj hrest) hj)

/-- No scope is met twice. -/
theorem nodup_outwards (f : Forest α) (k : Nat) : (f.outwards k).Nodup := by
  induction k using Nat.strongRecOn with
  | ind k ih =>
    obtain heq | ⟨j, -, hj, heq⟩ := f.outwards_cases k
    · rw [heq]
      exact List.nodup_cons.mpr ⟨List.not_mem_nil, .nil⟩
    · rw [heq]
      exact List.nodup_cons.mpr
        ⟨fun hk => Nat.not_le_of_lt hj (le_of_mem_outwards hk), ih j hj⟩

/-- The way outwards from a scope that is met is the rest of the way. -/
theorem outwards_of_append {f : Forest α} {j k : Nat} {nearer rest : List Nat}
    (h : f.outwards j = nearer ++ k :: rest) : f.outwards k = k :: rest := by
  induction j using Nat.strongRecOn generalizing nearer with
  | ind j ih =>
    cases nearer with
    | nil =>
      have hjk : j = k := by
        obtain heq | ⟨_, -, -, heq⟩ := f.outwards_cases j
        · exact (List.cons.inj (heq ▸ h)).1
        · exact (List.cons.inj (heq ▸ h)).1
      exact hjk ▸ h
    | cons i nearer =>
      obtain heq | ⟨o, -, ho, heq⟩ := f.outwards_cases j
      · rw [heq] at h
        exact absurd (List.cons.inj h).2.symm (by simp)
      · rw [heq] at h
        exact ih o ho (List.cons.inj h).2

/-! ## A change of one scope, seen along the way -/

variable {f : Forest α} {change : Table α → Table α} {k : Nat}

theorem outer?_alter (f : Forest α) (k : Nat) (change : Table α → Table α) (j : Nat) :
    (f.alter k change).outer? j = f.outer? j := by
  by_cases h : k = j
  · subst h
    cases hf : f.frames[k]? <;> simp [outer?, alter, hf]
  · simp [outer?, alter, h]

/-- A change of bindings moves no scope. -/
theorem outwards_alter (f : Forest α) (k : Nat) (change : Table α → Table α) (j : Nat) :
    (f.alter k change).outwards j = f.outwards j := by
  induction j using Nat.strongRecOn with
  | ind j ih =>
    rw [outwards, outwards, outer?_alter]
    cases f.outer? j with
    | none => rfl
    | some o =>
      by_cases ho : o < j
      · simp [ho, ih o ho]
      · simp [ho]

/-- A change of one scope leaves what other scopes bind. -/
theorem bindings_alter (hk : k < f.frames.length) (change : Table α → Table α) (j : Nat) :
    (f.alter k change).bindings j = if k = j then change (f.bindings k) else f.bindings j := by
  by_cases h : k = j
  · subst h
    simp [bindings, alter, List.getElem?_eq_getElem hk]
  · simp [bindings, alter, h]

/-- Where scope `k` is not met, its change is not seen. -/
theorem lookup_alter_of_not_mem (hk : k < f.frames.length) (change : Table α → Table α)
    (name : String) {scopes : List Nat} (h : k ∉ scopes) :
    Scope.lookup name (scopes.map (f.alter k change).bindings) =
      Scope.lookup name (scopes.map f.bindings) := by
  congr 1
  refine List.map_congr_left fun i hi => ?_
  rw [bindings_alter hk, if_neg]
  rintro rfl
  exact h hi

/-- A change that leaves a name is not seen under that name. -/
theorem lookup_alter_of_get? (hk : k < f.frames.length) {name : String}
    (h : (change (f.bindings k)).get? name = (f.bindings k).get? name) (scopes : List Nat) :
    Scope.lookup name (scopes.map (f.alter k change).bindings) =
      Scope.lookup name (scopes.map f.bindings) := by
  induction scopes with
  | nil => rfl
  | cons i rest ih =>
    have hget : ((f.alter k change).bindings i).get? name = (f.bindings i).get? name := by
      rw [bindings_alter hk]
      by_cases hi : k = i
      · rw [if_pos hi, h, hi]
      · rw [if_neg hi]
    rw [List.map_cons, List.map_cons, Scope.lookup, Scope.lookup, hget, ih]

/-- Where a nearer scope binds the name, a change of scope `k` is not seen. -/
theorem lookup_alter_of_not_reaches (hk : k < f.frames.length) (change : Table α → Table α)
    {name : String} {scopes : List Nat} (h : ¬ f.Reaches name scopes k) :
    Scope.lookup name (scopes.map (f.alter k change).bindings) =
      Scope.lookup name (scopes.map f.bindings) := by
  induction scopes with
  | nil => rfl
  | cons i rest ih =>
    have hi : k ≠ i := by
      rintro rfl
      exact h ⟨[], rest, rfl, fun _ hi => nomatch hi⟩
    rw [List.map_cons, List.map_cons, Scope.lookup, Scope.lookup, bindings_alter hk, if_neg hi]
    cases hget : (f.bindings i).get? name with
    | some v => rfl
    | none =>
      refine ih fun hrest => h ?_
      obtain ⟨nearer, outer, rfl, hnone⟩ := hrest
      refine ⟨i :: nearer, outer, rfl, fun j hj => ?_⟩
      obtain rfl | hj := List.mem_cons.mp hj
      · exact hget
      · exact hnone j hj

/-- Where the search comes as far as scope `k`, it goes on with what the change makes of the
scope. -/
theorem lookup_alter_of_reaches (hk : k < f.frames.length) (change : Table α → Table α)
    {name : String} {j : Nat} (h : f.Reaches name (f.outwards j) k) :
    Scope.lookup name ((f.outwards j).map (f.alter k change).bindings) =
      ((change (f.bindings k)).get? name).or
        (Scope.lookup name ((f.outwards k).map f.bindings).tail) := by
  obtain ⟨nearer, rest, heq, hnone⟩ := h
  have hnodup : (nearer ++ k :: rest).Nodup := heq ▸ f.nodup_outwards j
  obtain ⟨-, hrest, hapart⟩ := List.nodup_append.mp hnodup
  have hnearer : k ∉ nearer := fun hin => hapart k hin k List.mem_cons_self rfl
  have hnothing : Scope.lookup name (nearer.map f.bindings) = none := by
    refine Scope.lookup_eq_none_iff.mpr fun t ht => ?_
    obtain ⟨i, hi, rfl⟩ := List.mem_map.mp ht
    exact hnone i hi
  rw [heq, outwards_of_append heq, List.map_append, Scope.lookup_append,
    lookup_alter_of_not_mem hk change name hnearer, hnothing, List.map_cons, Scope.lookup,
    lookup_alter_of_not_mem hk change name (List.nodup_cons.mp hrest).1, bindings_alter hk,
    if_pos rfl, List.map_cons, List.tail_cons, Option.none_or]
  cases (change (f.bindings k)).get? name <;> rfl

/-- **A change of what a scope binds under one name**: it is seen under that name where the search
comes as far as the scope. -/
theorem lookup_chain_alter (hk : k < f.frames.length) (change : Table α → Table α) (name : String)
    (hchange : ∀ other ≠ name, ∀ t, (change t).get? other = t.get? other) {j : Nat}
    (hj : j < f.frames.length) (other : String) :
    (other = name ∧ f.Reaches name (f.outwards j) k →
      Scope.lookup other ((f.alter k change).chain j) =
        ((change (f.bindings k)).get? name).or (Scope.lookup name (f.chain k).tail)) ∧
    (¬ (other = name ∧ f.Reaches name (f.outwards j) k) →
      Scope.lookup other ((f.alter k change).chain j) = Scope.lookup other (f.chain j)) := by
  have hsame : j < (f.alter k change).frames.length := by simpa [alter] using hj
  rw [chain_eq _ hsame, outwards_alter, chain_eq f hj, chain_eq f hk]
  constructor
  · rintro ⟨rfl, hreaches⟩
    exact lookup_alter_of_reaches hk change hreaches
  · intro hnot
    by_cases hother : other = name
    · subst hother
      exact lookup_alter_of_not_reaches hk change fun h => hnot ⟨rfl, h⟩
    · exact lookup_alter_of_get? hk (hchange other hother _) _

end Forest

/-! ## Histories -/

/-- An operation on scopes, which are called by their numbers. -/
inductive Scoping (α : Type) where
  /-- A new scope inside an older one, or outside all. -/
  | new (outer : Option Nat)
  /-- A scope binds a name. -/
  | set (k : Nat) (name : String) (value : α)
  /-- A scope gives up a name. -/
  | clear (k : Nat) (name : String)

namespace Scoping

variable {α : Type}

/-- The number of the operation since which a scope binds a name; the last operation stands
first. -/
def born (k : Nat) (name : String) : List (Scoping α) → Option Nat
  | [] => none
  | .new _ :: past => born k name past
  | .set j n _ :: past =>
    if j = k ∧ n = name then (born k name past).or (some past.length) else born k name past
  | .clear j n :: past => if j = k ∧ n = name then none else born k name past

/-- Only past operations have a number. -/
theorem born_lt {k : Nat} {name : String} {past : List (Scoping α)} {x : Nat}
    (h : x ∈ born k name past) : x < past.length := by
  induction past with
  | nil => cases h
  | cons op past ih =>
    have hlater : x ∈ born k name past → x < (op :: past).length :=
      fun hx => Nat.lt_succ_of_lt (ih hx)
    cases op with
    | new _ => exact hlater h
    | set j n _ =>
      unfold born at h
      split at h
      · obtain hold | ⟨-, hnew⟩ := Option.or_eq_some_iff.mp h
        · exact hlater hold
        · cases hnew
          exact Nat.lt_succ_self _
      · exact hlater h
    | clear j n =>
      unfold born at h
      split at h
      · cases h
      · exact hlater h

end Scoping

namespace Forest

variable {α : Type} {f : Forest α}

/-- The scopes after an operation. -/
def does (f : Forest α) : Scoping α → Forest α
  | .new outer => (f.grow outer).1
  | .set k name value => f.alter k (·.insert name value)
  | .clear k name => f.alter k (·.erase name)

/-- The scopes that an operation calls are there. -/
def Allows (f : Forest α) : Scoping α → Prop
  | .new outer => ∀ j ∈ outer, j < f.frames.length
  | .set k _ _ => k < f.frames.length
  | .clear k _ => k < f.frames.length

instance (f : Forest α) (op : Scoping α) : Decidable (f.Allows op) :=
  match op with
  | .new outer => inferInstanceAs (Decidable (∀ j ∈ outer, j < f.frames.length))
  | .set k _ _ => inferInstanceAs (Decidable (k < f.frames.length))
  | .clear k _ => inferInstanceAs (Decidable (k < f.frames.length))

/-- The scopes come from these operations, of which the last stands first. -/
inductive Grown : List (Scoping α) → Forest α → Prop where
  /-- At first there is no scope. -/
  | start : Grown [] {}
  /-- Each operation is on scopes that are there. -/
  | step {past : List (Scoping α)} {f : Forest α} (h : Grown past f) (op : Scoping α)
      (allowed : f.Allows op) : Grown (op :: past) (f.does op)

theorem outer?_grow (f : Forest α) (outer : Option Nat) (k : Nat) :
    (f.grow outer).1.outer? k = if k = f.frames.length then outer else f.outer? k := by
  by_cases h : k = f.frames.length
  · simp [grow, outer?, h]
  · rw [if_neg h]
    obtain hlt | hgt := Nat.lt_or_gt_of_ne h
    · simp [grow, outer?, List.getElem?_append_left hlt]
    · have hnone : f.frames[k]? = none := List.getElem?_eq_none (Nat.le_of_lt hgt)
      have hmore : (f.grow outer).1.frames[k]? = none := by
        refine List.getElem?_eq_none ?_
        simp [grow]
        omega
      simp [outer?, hnone, hmore]

/-- A new scope binds nothing. -/
theorem bindings_grow (f : Forest α) (outer : Option Nat) (k : Nat) :
    (f.grow outer).1.bindings k = f.bindings k := by
  obtain hlt | heq | hgt := Nat.lt_trichotomy k f.frames.length
  · simp [grow, bindings, List.getElem?_append_left hlt]
  · simp [grow, bindings, heq, Table.empty]
  · have hnone : f.frames[k]? = none := List.getElem?_eq_none (Nat.le_of_lt hgt)
    have hmore : (f.grow outer).1.frames[k]? = none := by
      refine List.getElem?_eq_none ?_
      simp [grow]
      omega
    simp [bindings, hnone, hmore]

namespace Grown

variable {past : List (Scoping α)}

/-- The scope outside a scope is older. -/
theorem outer_lt (h : f.Grown past) {k j : Nat} (hj : f.outer? k = some j) : j < k := by
  induction h with
  | start => cases hj
  | step h op allowed ih =>
    cases op with
    | new outer =>
      rw [does, outer?_grow] at hj
      split at hj
      · rename_i hk
        exact hk ▸ allowed j hj
      · exact ih hj
    | set i name value => exact ih (by rwa [does, outer?_alter] at hj)
    | clear i name => exact ih (by rwa [does, outer?_alter] at hj)

/-- So nothing is left out on the way outwards. -/
theorem outwards_eq (h : f.Grown past) (k : Nat) :
    f.outwards k =
      match f.outer? k with
      | none => [k]
      | some j => k :: f.outwards j := by
  rw [outwards]
  cases hj : f.outer? k with
  | none => rfl
  | some j => simp [h.outer_lt hj]

/-- **A scope holds the names that are bound since some operation, in the order of these
operations.** -/
theorem timed (h : f.Grown past) (k : Nat) :
    (f.bindings k).Timed fun name => Scoping.born k name past := by
  induction h with
  | start => exact .empty
  | @step past f h op allowed ih =>
    cases op with
    | new outer =>
      rw [does, bindings_grow]
      exact ih
    | set i name value =>
      rw [does, bindings_alter allowed]
      by_cases hi : i = k
      · subst hi
        rw [if_pos rfl]
        refine (ih.insert (fun n x hx => Scoping.born_lt hx) name value).congr fun n => ?_
        by_cases hn : name = n
        · simp [Scoping.born, hn]
        · simp [Scoping.born, hn]
      · rw [if_neg hi]
        exact ih.congr fun n => by simp [Scoping.born, hi]
    | clear i name =>
      rw [does, bindings_alter allowed]
      by_cases hi : i = k
      · subst hi
        rw [if_pos rfl]
        exact (ih.erase name).congr fun n => by simp [Scoping.born]
      · rw [if_neg hi]
        exact ih.congr fun n => by simp [Scoping.born, hi]

/-- **What is seen from a scope, and what a change of it changes.**  A snapshot shows the names that
the search finds, with the texts of what it finds, cut where they are longer than eighty characters,
in the order in which the walk from the outermost scope inwards meets them; each scope has its names in the order of the operations since which it
binds them.  A name that is set or cleared in a scope is seen otherwise only where the search for it
comes as far as this scope: there it means the new value, or what it means outside the scope; all
other names mean what they meant. -/
theorem sees (h : f.Grown past) (text : α → Option String) {k : Nat} (hk : k < f.frames.length) :
    -- the way outwards
    (f.outwards k = match f.outer? k with
      | none => [k]
      | some j => k :: f.outwards j) ∧
    f.chain k = (f.outwards k).map f.bindings ∧
    -- the snapshot
    (∀ name, name ∈ (Scope.snapshot text (f.chain k)).names ↔
      (Scope.lookup name (f.chain k)).isSome = true) ∧
    (∀ name, (Scope.snapshot text (f.chain k)).get? name =
      (Scope.lookup name (f.chain k)).map (Scope.shown text)) ∧
    (∀ name v, Scope.lookup name (f.chain k) = some v →
      (text v = none → (Scope.snapshot text (f.chain k)).get? name = some "<none>") ∧
      ∀ t, text v = some t →
        (t.length ≤ 80 → (Scope.snapshot text (f.chain k)).get? name = some t) ∧
        (80 < t.length → (Scope.snapshot text (f.chain k)).get? name =
          some (String.ofList (t.toList.take 77) ++ "..."))) ∧
    (Scope.snapshot text (f.chain k)).names =
      ((f.outwards k).reverse.flatMap fun j => (f.bindings j).names).eraseDups ∧
    (∀ j, (f.bindings j).Timed fun name => Scoping.born j name past) ∧
    -- a change of the scope, seen from any scope
    ∀ j < f.frames.length, ∀ name other,
      (∀ value,
        (other = name ∧ f.Reaches name (f.outwards j) k →
          Scope.lookup other ((f.does (.set k name value)).chain j) = some value) ∧
        (¬ (other = name ∧ f.Reaches name (f.outwards j) k) →
          Scope.lookup other ((f.does (.set k name value)).chain j) =
            Scope.lookup other (f.chain j))) ∧
      (other = name ∧ f.Reaches name (f.outwards j) k →
        Scope.lookup other ((f.does (.clear k name)).chain j) =
          Scope.lookup other (f.chain k).tail) ∧
      (¬ (other = name ∧ f.Reaches name (f.outwards j) k) →
        Scope.lookup other ((f.does (.clear k name)).chain j) =
          Scope.lookup other (f.chain j)) := by
  have hnodup : ∀ t ∈ f.chain k, t.names.Nodup := by
    intro t ht
    rw [chain_eq f hk] at ht
    obtain ⟨j, -, rfl⟩ := List.mem_map.mp ht
    exact (h.timed j).nodup
  have hget := Scope.get?_snapshot text hnodup
  refine ⟨h.outwards_eq k, chain_eq f hk, fun name => ?_, hget, fun name v hv => ?_, ?_, h.timed,
    ?_⟩
  · rw [Table.mem_names_iff, hget, Option.isSome_map]
  · rw [hget, hv, Option.map_some, Scope.shown]
    refine ⟨fun hnone => ?_, fun t ht => ⟨fun hshort => ?_, fun hlong => ?_⟩⟩
    · rw [hnone]
      rfl
    · rw [ht, Option.getD_some, Scope.clip_of_short hshort]
    · rw [ht, Option.getD_some, Scope.clip_of_long hlong]
  · rw [Scope.names_snapshot, chain_eq f hk, ← List.map_reverse, List.flatMap_map]
  · intro j hj name other
    refine ⟨fun value => ?_, ?_⟩
    · have hset := lookup_chain_alter hk (·.insert name value) name
        (fun o ho t => by rw [Table.get?_insert, if_neg ho.symm]) hj other
      rw [Table.get?_insert, if_pos rfl, Option.some_or] at hset
      exact hset
    · have hclear := lookup_chain_alter hk (·.erase name) name
        (fun o ho t => by rw [Table.get?_erase, if_neg ho.symm]) hj other
      rw [Table.get?_erase, if_pos rfl, Option.none_or] at hclear
      exact ⟨fun hat => hat.1 ▸ hclear.1 hat, hclear.2⟩

end Grown

/-- Two scopes, one inside the other, that both bind `b`; the outer one has cleared `a` and set it
again. -/
def nested : Forest String :=
  ⟨[{ outer := none, bindings := ⟨[("b", "outer"), ("a", "again")]⟩ },
    { outer := some 0, bindings := ⟨[("b", "inner")]⟩ }]⟩

theorem grown_nested :
    Grown [.set 1 "b" "inner", .set 0 "a" "again", .clear 0 "a", .set 0 "b" "outer",
      .set 0 "a" "first", .new (some 0), .new none] nested := by
  have h0 : Grown [] ({} : Forest String) := .start
  have h1 := h0.step (.new none) (fun _ hj => nomatch hj)
  have h2 := h1.step (.new (some 0)) (fun j hj => by cases hj; decide)
  have h3 := h2.step (.set 0 "a" "first") (by decide)
  have h4 := h3.step (.set 0 "b" "outer") (by decide)
  have h5 := h4.step (.clear 0 "a") (by decide)
  have h6 := h5.step (.set 0 "a" "again") (by decide)
  exact h6.step (.set 1 "b" "inner") (by decide)

/-- Texts for what the scopes bind: a long one, and none. -/
def lengthy (v : String) : Option String :=
  if v = "inner" then some (String.ofList (List.replicate 81 'x')) else none

/-- The inner scope sees its own `b` and the outer `a`, in the order `b`, `a`; without its own `b`
it sees the outer one.  A long text is cut, and where there is no text, that is shown. -/
theorem sees_nested :
    (Scope.snapshot some (nested.chain 1)).names = ["b", "a"] ∧
    (Scope.snapshot some (nested.chain 1)).get? "b" = some "inner" ∧
    Scope.lookup "b" ((nested.does (.clear 1 "b")).chain 1) = some "outer" ∧
    (Scope.snapshot lengthy (nested.chain 1)).get? "b" =
      some (String.ofList (List.replicate 77 'x') ++ "...") ∧
    (Scope.snapshot lengthy (nested.chain 1)).get? "a" = some "<none>" := by
  have hway : nested.outwards 1 = [1, 0] := by
    rw [grown_nested.outwards_eq 1]
    show 1 :: nested.outwards 0 = [1, 0]
    rw [grown_nested.outwards_eq 0]
    rfl
  obtain ⟨-, hchain, -, -, htext, hnames, -, hchange⟩ :=
    grown_nested.sees some (k := 1) (by decide)
  obtain ⟨-, -, -, -, hlengthy, -⟩ := grown_nested.sees lengthy (k := 1) (by decide)
  obtain ⟨-, hclear, -⟩ := hchange 1 (by decide) "b" "b"
  rw [hway] at hchain hnames
  have hb : Scope.lookup "b" (nested.chain 1) = some "inner" := by
    rw [hchain]
    decide
  have ha : Scope.lookup "a" (nested.chain 1) = some "again" := by
    rw [hchain]
    decide
  refine ⟨hnames.trans (by decide), ((htext "b" _ hb).2 _ rfl).1 (by decide), ?_,
    (((hlengthy "b" _ hb).2 _ rfl).2 (by decide)).trans (by decide),
    (hlengthy "a" _ ha).1 (by decide)⟩
  rw [hclear ⟨rfl, [], [0], hway, fun _ hi => nomatch hi⟩, hchain]
  decide

end Forest

end Cadence
