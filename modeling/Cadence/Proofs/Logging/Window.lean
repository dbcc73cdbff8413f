/-
  The WINDOW that the step log is: the last steps, and the last one of each script.

  `StepLog.Recorded es l l'` says that `l'` is `l` after the steps `es`, each of which had the number
  that was next.  What a log holds is told against the whole history, of which it may have dropped
  any part (`StepLog.Holds`): its entries are the end of the history, the numbers in the history are
  the places in it, and the last step of a script is the last one of that name in the history, dropped
  or not.  A record keeps this (`Holds.record`), and so do many (`Holds.recorded`).

  The numbers of states are told apart by their values, not by their lengths, so they stay different
  when they need more than six digits (`stateId_injective`).
-/
import Cadence.Proofs.Documents.Decimals
import Cadence.World.StepLog

namespace Cadence

/-! ## Names of states -/

/-- Zeros in front do not change what digits say. -/
theorem digitsValue_zeros (n : Nat) (ds : List Char) :
    Text.digitsValue (List.replicate n '0' ++ ds) = Text.digitsValue ds := by
  induction n with
  | zero => rfl
  | succ n ih => exact ih

/-- **Different steps leave differently named states**, however large their numbers are. -/
theorem stateId_injective {a b : Nat} (h : stateId a = stateId b) : a = b := by
  have hlists := congrArg String.toList h
  simp only [stateId, String.toList_append, String.toList_ofList, List.append_cancel_left_eq]
    at hlists
  have hvalues := congrArg Text.digitsValue hlists
  rwa [digitsValue_zeros, digitsValue_zeros, Text.digitsValue_toDigits, Text.digitsValue_toDigits]
    at hvalues

namespace StepLog

/-! ## Histories -/

/-- One log is another one after some steps, which had the numbers that were next. -/
inductive Recorded : List LogEntry → StepLog → StepLog → Prop where
  /-- There was no step. -/
  | none (l : StepLog) : Recorded [] l l
  /-- There was one step more. -/
  | more {es : List LogEntry} {l l' : StepLog} {e : LogEntry} (h : Recorded es l l')
      (index : e.index = l'.next) : Recorded (es ++ [e]) l (l'.record e)

theorem Recorded.trans {es fs : List LogEntry} {l l' l'' : StepLog} (h : Recorded es l l')
    (k : Recorded fs l' l'') : Recorded (es ++ fs) l l'' := by
  induction k with
  | none l => rwa [List.append_nil]
  | more k index ih =>
    rw [← List.append_assoc]
    exact .more (ih h) index

/-- Every step is counted. -/
theorem Recorded.next {es : List LogEntry} {l l' : StepLog} (h : Recorded es l l') :
    l'.next = l.next + es.length := by
  induction h with
  | none l => rfl
  | more h index ih =>
    rw [List.length_append]
    exact congrArg (· + 1) ih

/-- Where the log is the same there was no step. -/
theorem Recorded.eq_nil {es : List LogEntry} {l l' : StepLog} (h : Recorded es l l')
    (hsame : l' = l) : es = [] := by
  have hnext := h.next
  rw [hsame] at hnext
  exact List.length_eq_zero_iff.mp (by omega)

/-- **What a log with room for `m` steps holds of a history.** -/
structure Holds (m : Nat) (es : List LogEntry) (l : StepLog) : Prop where
  /-- It has that much room. -/
  capacity : l.capacity = m
  /-- It has counted the steps. -/
  next : l.next = es.length
  /-- It keeps the last ones. -/
  entries : l.entries = es.drop (es.length - m)
  /-- The steps of the history have the numbers from 0 on. -/
  indices : es.map LogEntry.index = List.range es.length
  /-- It knows the last step of each script. -/
  last : ∀ name, l.lastOf? name = es.reverse.find? fun e => e.script = name

namespace Holds

variable {m : Nat} {es : List LogEntry} {l : StepLog}

theorem empty (m : Nat) : Holds m [] { capacity := m } :=
  ⟨rfl, rfl, List.drop_nil.symm, rfl, fun _ => rfl⟩

/-- Of the last `m` steps and one more, the last `m` are the last `m` of all. -/
theorem record (h : Holds m es l) {e : LogEntry} (hindex : e.index = l.next) :
    Holds m (es ++ [e]) (l.record e) where
  capacity := h.capacity
  next := by
    rw [List.length_append]
    exact congrArg (· + 1) h.next
  entries := by
    show (l.entries ++ [e]).drop ((l.entries ++ [e]).length - l.capacity) = _
    have hdrop : es.drop (es.length - m) ++ [e] = (es ++ [e]).drop (es.length - m) :=
      (List.drop_append_of_le_length (Nat.sub_le _ _)).symm
    rw [h.entries, h.capacity, hdrop, List.drop_drop]
    congr 1
    simp only [List.length_drop, List.length_append, List.length_singleton]
    omega
  indices := by
    rw [List.map_append, h.indices, List.length_append, List.length_singleton, List.range_succ,
      ← h.next, ← hindex]
    rfl
  last name := by
    have hput : (l.record e).lastOf? name = if e.script = name then some e else l.lastOf? name :=
      Table.get?_insert l.last e.script name e
    rw [hput, h.last, List.reverse_append, List.reverse_singleton, List.singleton_append,
      List.find?_cons]
    by_cases hname : e.script = name
    · simp [hname]
    · simp [hname]

theorem recorded (h : Holds m es l) {fs : List LogEntry} {l' : StepLog} (k : Recorded fs l l') :
    Holds m (es ++ fs) l' := by
  induction k with
  | none l => rwa [List.append_nil]
  | more k index ih =>
    rw [← List.append_assoc]
    exact (ih h).record index

/-! ## What follows for the entries -/

/-- The entries have the last numbers, one after the other. -/
theorem indices_entries (h : Holds m es l) :
    l.entries.map LogEntry.index = List.range' (es.length - min m es.length) (min m es.length) := by
  rw [h.entries, List.map_drop, h.indices, List.range_eq_range', List.drop_range']
  congr 1 <;> omega

theorem length_entries (h : Holds m es l) : l.entries.length = min m es.length := by
  rw [h.entries, List.length_drop]
  omega

/-- Each step of the history has the number of its place. -/
theorem index_getElem (h : Holds m es l) {k : Nat} (hk : k < es.length) : es[k].index = k := by
  have hget := congrArg (·[k]?) h.indices
  simpa [hk] using hget

/-- No two steps of the history leave states of the same name. -/
theorem nodup_stateIds (h : Holds m es l) : (es.map LogEntry.stateId).Nodup := by
  have hids : es.map LogEntry.stateId = (List.range es.length).map Cadence.stateId := by
    rw [← h.indices, List.map_map]
    rfl
  rw [hids]
  exact List.pairwise_map.mpr (List.nodup_range.imp fun hne heq => hne (stateId_injective heq))

end Holds

end StepLog

end Cadence
