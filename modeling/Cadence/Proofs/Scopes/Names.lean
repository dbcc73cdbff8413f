/-
  NAMES of a table, in their order.

  The view of a table is what stands under each name; beside it a table remembers the order in which
  its names came.  Here that order gets a lemma for each operation, and it is told from outside, by
  the TIMES at which the names were entered (`Table.Timed`): a name that is written again keeps its
  time, and a name that is erased loses it, so that it goes to the end when it comes back.

  With no name entered twice, the pairs of a table are its view in the order of its names
  (`find_reverse`), and writing all of them into another table, one after the other, writes the one
  view over the other (`get?_foldl_insert`).
-/
import Mathlib.Data.List.Basic
import Mathlib.Data.List.Induction
import Cadence.Table

namespace Cadence.Table

variable {α β : Type}

/-! ## Operations -/

theorem map_put (name : String) (value : α) (es : List (String × α)) :
    (put name value es).map Prod.fst =
      if name ∈ es.map Prod.fst then es.map Prod.fst else es.map Prod.fst ++ [name] := by
  induction es with
  | nil => simp [put]
  | cons e rest ih =>
    obtain ⟨n, v⟩ := e
    by_cases h : n = name
    · simp [put, h]
    · have hne : ¬ name = n := fun hn => h hn.symm
      by_cases hr : name ∈ rest.map Prod.fst
      · have hyes : name ∈ ((n, v) :: rest).map Prod.fst := List.mem_cons_of_mem n hr
        rw [if_pos hr] at ih
        rw [put, if_neg h, List.map_cons, ih, if_pos hyes, List.map_cons]
      · have hno : name ∉ ((n, v) :: rest).map Prod.fst := by
          rw [List.map_cons, List.mem_cons, not_or]
          exact ⟨hne, hr⟩
        rw [if_neg hr] at ih
        rw [put, if_neg h, List.map_cons, ih, if_neg hno, List.map_cons, List.cons_append]

/-- A write keeps the place of a present name, and puts a new one at the end. -/
theorem names_insert (t : Table α) (name : String) (value : α) :
    (t.insert name value).names = if name ∈ t.names then t.names else t.names ++ [name] :=
  map_put name value t.entries

/-- An erasure takes a name out of the order. -/
theorem names_erase (t : Table α) (name : String) :
    (t.erase name).names = t.names.filter fun n => n ≠ name := by
  show (t.entries.filter fun e => e.1 ≠ name).map Prod.fst =
    (t.entries.map Prod.fst).filter fun n => n ≠ name
  rw [List.filter_map]
  rfl

theorem find_eq_none_iff {name : String} {es : List (String × α)} :
    find name es = none ↔ name ∉ es.map Prod.fst := by
  induction es with
  | nil => simp [find]
  | cons e rest ih =>
    obtain ⟨n, v⟩ := e
    by_cases h : n = name
    · simp [find, h]
    · have hne : ¬ name = n := fun hn => h hn.symm
      simp [find, h, hne, ih]

/-- The names are those under which something stands. -/
theorem mem_names_iff {t : Table α} {name : String} :
    name ∈ t.names ↔ (t.get? name).isSome = true := by
  rw [← not_iff_not, Option.not_isSome_iff_eq_none]
  exact find_eq_none_iff.symm

/-! ## Names in the order of their times -/

/-- The names of a table are those that have a time, and they stand in the order of their times. -/
structure Timed (t : Table α) (time : String → Option Nat) : Prop where
  /-- The names are those that have a time. -/
  mem_iff : ∀ name, name ∈ t.names ↔ (time name).isSome = true
  /-- Of two names the first has the smaller time. -/
  sorted : t.names.Pairwise fun a b => ∀ x ∈ time a, ∀ y ∈ time b, x < y

namespace Timed

variable {t : Table α} {time : String → Option Nat}

theorem empty : (Table.empty : Table α).Timed fun _ => none where
  mem_iff _ := by simp [Table.empty, names]
  sorted := .nil

/-- No name stands there twice. -/
theorem nodup (h : t.Timed time) : t.names.Nodup := by
  refine h.sorted.imp_of_mem fun {a b} ha _ hab heq => ?_
  subst heq
  obtain ⟨x, hx⟩ := Option.isSome_iff_exists.mp ((h.mem_iff a).mp ha)
  exact Nat.lt_irrefl x (hab x hx x hx)

theorem congr {time' : String → Option Nat} (h : t.Timed time)
    (heq : ∀ name, time' name = time name) : t.Timed time' := (funext heq : time' = time) ▸ h

/-- A name that is written at a time later than all others has that time, unless it has one. -/
theorem insert (h : t.Timed time) {now : Nat} (hnow : ∀ name, ∀ x ∈ time name, x < now)
    (name : String) (value : α) :
    (t.insert name value).Timed fun n =>
      if name = n then (time name).or (some now) else time n := by
  by_cases hin : name ∈ t.names
  · -- the name keeps its place and its time
    obtain ⟨x, hx⟩ := Option.isSome_iff_exists.mp ((h.mem_iff name).mp hin)
    have hsame : (fun n => if name = n then (time name).or (some now) else time n) = time := by
      funext n
      split
      · rename_i hn
        rw [← hn, hx]
        rfl
      · rfl
    have hnames : (t.insert name value).names = t.names := by rw [names_insert, if_pos hin]
    rw [hsame]
    exact ⟨fun n => by rw [hnames]; exact h.mem_iff n, by rw [hnames]; exact h.sorted⟩
  · have hnone : time name = none := by
      rw [← Option.not_isSome_iff_eq_none, ← h.mem_iff]
      exact hin
    have hnames : (t.insert name value).names = t.names ++ [name] := by
      rw [names_insert, if_neg hin]
    have hother : ∀ n ∈ t.names, ¬ name = n := by
      rintro n hn rfl
      exact hin hn
    constructor
    · intro n
      rw [hnames, List.mem_append, List.mem_singleton, h.mem_iff n]
      by_cases hn : n = name
      · simp [hn, hnone]
      · simp [hn, Ne.symm hn]
    · rw [hnames, List.pairwise_append]
      refine ⟨?_, List.pairwise_singleton _ _, ?_⟩
      · refine h.sorted.imp_of_mem fun {a b} ha hb hab => ?_
        rw [if_neg (hother a ha), if_neg (hother b hb)]
        exact hab
      · intro a ha b hb x hx y hy
        obtain rfl := List.mem_singleton.mp hb
        rw [if_neg (hother a ha)] at hx
        rw [if_pos rfl, hnone] at hy
        obtain rfl : now = y := by simpa using hy
        exact hnow a x hx

/-- A name that is erased has no time any more. -/
theorem erase (h : t.Timed time) (name : String) :
    (t.erase name).Timed fun n => if name = n then none else time n := by
  constructor
  · intro n
    rw [names_erase, List.mem_filter, h.mem_iff n]
    by_cases hn : n = name
    · simp [hn]
    · simp [hn, Ne.symm hn]
  · rw [names_erase]
    refine (h.sorted.filter _).imp_of_mem fun {a b} ha hb hab => ?_
    have hne : ∀ {n}, n ∈ t.names.filter (fun n => n ≠ name) → ¬ name = n :=
      fun hn heq => of_decide_eq_true (List.mem_filter.mp hn).2 heq.symm
    rw [if_neg (hne ha), if_neg (hne hb)]
    exact hab

end Timed

/-! ## One table written over another -/

/-- Where no name stands twice, it does not matter from which end a name is looked for. -/
theorem find_reverse {name : String} {es : List (String × α)} (h : (es.map Prod.fst).Nodup) :
    find name es.reverse = find name es := by
  have find_append : ∀ as bs : List (String × α),
      find name (as ++ bs) = (find name as).or (find name bs) := by
    intro as bs
    induction as with
    | nil => rfl
    | cons a as ih =>
      obtain ⟨n, v⟩ := a
      by_cases hn : n = name
      · simp [find, hn]
      · simp [find, hn, ih]
  induction es with
  | nil => rfl
  | cons e rest ih =>
    obtain ⟨n, v⟩ := e
    obtain ⟨hnot, hrest⟩ := List.nodup_cons.mp h
    rw [List.reverse_cons, find_append, ih hrest]
    by_cases hn : n = name
    · subst hn
      rw [find_eq_none_iff.mpr hnot]
      simp [find]
    · simp [find, hn]

/-- **Writing the pairs of one table into another** lays its view over that of the other. -/
theorem get?_foldl_insert (f : α → β) {es : List (String × α)} (h : (es.map Prod.fst).Nodup)
    (t : Table β) (name : String) :
    (es.foldl (fun t e => t.insert e.1 (f e.2)) t).get? name =
      ((find name es).map f).or (t.get? name) := by
  rw [← find_reverse h]
  clear h
  induction es using List.reverseRecOn with
  | nil => rfl
  | append_singleton es e ih =>
    rw [List.foldl_append, List.foldl_cons, List.foldl_nil, get?_insert, ih, List.reverse_append,
      List.reverse_singleton, List.singleton_append]
    obtain ⟨n, v⟩ := e
    by_cases hn : n = name
    · simp [find, hn]
    · simp [find, hn]

/-- The names go behind those that are there, each where it is first met. -/
theorem names_foldl_insert (f : α → β) (es : List (String × α)) {t : Table β} {met : List String}
    (ht : t.names = met.eraseDups) :
    (es.foldl (fun t e => t.insert e.1 (f e.2)) t).names =
      (met ++ es.map Prod.fst).eraseDups := by
  induction es using List.reverseRecOn with
  | nil => simp [ht]
  | append_singleton es e ih =>
    rw [List.foldl_append, List.foldl_cons, List.foldl_nil, names_insert, ih, List.map_append,
      ← List.append_assoc]
    generalize met ++ es.map Prod.fst = before
    rw [List.eraseDups_append]
    by_cases hin : e.1 ∈ before
    · have hnone : (List.map Prod.fst [e]).removeAll before = [] := by
        simp [List.removeAll, hin]
      rw [if_pos (List.mem_eraseDups.mpr hin), hnone, List.eraseDups_nil, List.append_nil]
    · have hnew : (List.map Prod.fst [e]).removeAll before = [e.1] := by
        simp [List.removeAll, hin]
      rw [if_neg fun h => hin (List.mem_eraseDups.mp h), hnew, List.eraseDups_cons]
      simp

end Cadence.Table
