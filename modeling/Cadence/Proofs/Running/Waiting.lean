/-
  WAITING — a script that waits for its journal leaves the statement once, and not too late.

  1. **The journal** — it holds the last entries of those that were added since it was cleared
     (`lastEntries`), and the search finds a text that occurs in one of them (`searchJournal_iff`).

  2. **The statement** — if the text is there it goes on, otherwise it lets its script wait; a
     script that waits already is left alone, so trying again does not move the deadline.

  3. **The wait** — entries are added and removed, the clock goes on, and ticks before the deadline
     do not find the text (`Waits`).  All that changes in the script then is its journal
     (`Waits.script`), and what its next tick does is told by `waits_of_awaits`.
-/
import Cadence.Proofs.Running.Resting
import Cadence.Proofs.Running.Suspension

namespace Cadence

open ScriptM

/-! ## The journal -/

/-- What a journal has of the entries that were added to it. -/
def lastEntries (added : List JournalEntry) : List JournalEntry :=
  added.drop (added.length - journalCapacity)

/-- A text occurs in one of the entries. -/
def Mentioned (text : String) (entries : List JournalEntry) : Prop :=
  ∃ e ∈ entries, text.toList <:+: e.text.toList

namespace Script

variable {ι : Type} {s : Script ι}

theorem journal_addEntry {added : List JournalEntry} (h : s.journal = lastEntries added)
    (e : JournalEntry) : (s.addEntry e).journal = lastEntries (added ++ [e]) := by
  show (s.journal ++ [e]).drop ((s.journal ++ [e]).length - journalCapacity) = _
  have hle : added.length - journalCapacity ≤ added.length := Nat.sub_le _ _
  have hjournal : s.journal ++ [e] = (added ++ [e]).drop (added.length - journalCapacity) := by
    rw [h, lastEntries, List.drop_append_of_le_length hle]
  have hdrop : added.length - journalCapacity +
      ((added ++ [e]).length - (added.length - journalCapacity) - journalCapacity) =
      (added ++ [e]).length - journalCapacity := by
    rw [List.length_append, List.length_singleton]
    omega
  rw [hjournal, List.length_drop, List.drop_drop, hdrop, lastEntries]

theorem occursIn_iff {part text : List Char} : occursIn part text = true ↔ part <:+: text := by
  induction text with
  | nil => rw [occursIn, List.isEmpty_iff, List.infix_nil]
  | cons c rest ih =>
    rw [occursIn, Bool.or_eq_true, List.isPrefixOf_iff_prefix, ih, List.infix_cons_iff]

theorem searchJournal_iff {text : String} :
    s.searchJournal text = true ↔ Mentioned text s.journal := by
  unfold searchJournal Mentioned
  rw [List.any_eq_true]
  exact exists_congr fun e => and_congr_right fun _ => occursIn_iff

/-! ## Scripts that wait -/

/-- A script whose statement waits, with its journal. -/
def waiting (s : Script ι) (deadline : Float) (entries : List JournalEntry) : Script ι :=
  { s with
    activity := .timingOut, deadline := some deadline, callback := some .giveUp
    journal := entries }

/-- Who waits already does not begin again. -/
theorem timeout_waiting (deadline later : Float) (entries : List JournalEntry) :
    (s.waiting deadline entries).timeout later (some .giveUp) = s.waiting deadline entries := rfl

end Script

section

variable {σ ι : Type} {host : Host σ ι} {i : Nat} {a : Statement} {text : String} {n : Int}
  {x : Float}

/-! ## The statement -/

/-- A statement waits for a text, at most so many milliseconds. -/
def Statement.Awaits (i : Nat) (text : String) (n : Int) (w : World σ ι) (a : Statement) : Prop :=
  ∃ d more, a.Asks i .waitForJournal (d :: more) w ∧ w.asString d = .ok text ∧
    (more = [] ∧ n = Bundled.journalWait ∨ ∃ m rest, more = m :: rest ∧ w.asInt m = .ok n)

theorem Statement.Awaits.congr {w w' : World σ ι} (ha : a.Awaits i text n w)
    (hs : w'.scripts = w.scripts) (hc : w'.registry.commands = w.registry.commands) :
    a.Awaits i text n w' := by
  obtain ⟨d, more, hasks, htext, hwait⟩ := ha
  refine ⟨d, more, hasks.congr hc, ?_, hwait.imp_right ?_⟩
  · rw [asString_congr hs, htext]
  · rintro ⟨m, rest, hm, hint⟩
    exact ⟨m, rest, hm, by rw [asInt_congr hs, hint]⟩

/-- A wait is never longer than the clock can tell. -/
theorem Statement.Awaits.seconds {w : World σ ι} (ha : a.Awaits i text n w) :
    ∃ x, (Duration.whole n).seconds = .ok x := by
  obtain ⟨_, _, _, _, ⟨_, hn⟩ | ⟨_, _, _, hint⟩⟩ := ha
  · subst hn
    exact ⟨_, rfl⟩
  · exact seconds_of_asInt hint

theorem World.searchJournal_of_active {w : World σ ι} (hactive : w.active = some i) :
    w.searchJournal text = (w.script i).searchJournal text := by
  rw [World.searchJournal, World.activeScript?, hactive]
  rfl

/-- The script of the statement waits, unless it is suspended already. -/
theorem timeout_of_active {w : World σ ι} (hactive : w.active = some i)
    (hx : (Duration.whole n).seconds = .ok x) :
    timeout (.whole n) (some .giveUp) w =
      .ok () (w.modifyScript i (·.timeout (w.now + x) (some .giveUp))) := by
  unfold timeout
  rw [bind_of_ok (requireActive_of_some hactive)]
  unfold timeoutScript seconds
  rw [script_bind]
  by_cases hrun : (w.script i).activity = .running
  · rw [if_pos hrun, hx]
    rfl
  · rw [if_neg hrun]
    have hsame : (w.script i).timeout (w.now + x) (some .giveUp) = w.script i := if_neg hrun
    rw [World.modifyScript_of_same (f := (·.timeout (w.now + x) (some .giveUp))) hsame]
    rfl

/-- If the text is not there, the statement lets its script wait and does not go on. -/
theorem executeStatement_of_missing {w : World σ ι} (ha : a.Awaits i text n w)
    (hx : (Duration.whole n).seconds = .ok x) (hactive : w.active = some i)
    (htext : ¬ Mentioned text (w.script i).journal) :
    executeStatement host i a w =
      .ok () (w.modifyScript i (·.timeout (w.now + x) (some .giveUp))) := by
  obtain ⟨d, more, hasks, hd, hwait⟩ := ha
  have hmissing : ¬ w.searchJournal text = true := by
    rw [World.searchJournal_of_active hactive]
    exact fun h => htext (Script.searchJournal_iff.mp h)
  have hcommand : ∀ force, Bundled.runCommand host .waitForJournal (d :: more) force w =
      .ok false (w.modifyScript i (·.timeout (w.now + x) (some .giveUp))) := by
    intro force
    show Bundled.waitForJournal d more w = _
    unfold Bundled.waitForJournal
    rw [bind_of_ok (string_of_asString hd), get_bind, if_neg hmissing]
    obtain ⟨hmore, hn⟩ | ⟨m, rest, hmore, hint⟩ := hwait
    · subst hmore hn
      show (timeout (.whole Bundled.journalWait) (some .giveUp) >>= fun _ => return false :
        ScriptM σ ι Bool) w = _
      rw [bind_of_ok (timeout_of_active hactive hx)]
      rfl
    · subst hmore
      show (Bundled.int m >>= fun n => timeout (.whole n) (some .giveUp) >>= fun _ => return false :
        ScriptM σ ι Bool) w = _
      rw [bind_of_ok (int_of_asInt hint), bind_of_ok (timeout_of_active hactive hx)]
      rfl
  rw [executeStatement_of_asks host hasks, bind_of_ok (hcommand _)]
  rfl

/-! ## The tick -/

/-- A tick that does not find the text lets the script wait, or go on waiting. -/
theorem tick_of_missing (hh : host.Unobtrusive) {w u : World σ ι} (hi : i < u.scripts.size)
    (hchance : chance host i w = .ok .run u) (hactive : u.active = some i)
    (hcursor : (u.script i).cursor = some a) (ha : a.Awaits i text n u)
    (hx : (Duration.whole n).seconds = .ok x) (htext : ¬ Mentioned text (u.script i).journal) :
    ∃ w', tick host i w = .ok true w' ∧
      w'.script i = (u.script i).timeout (u.now + x) (some .giveUp) ∧
      w'.scripts.size = u.scripts.size := by
  obtain ⟨w', htick, hscript, hw'⟩ := tick_of_does hh hi hchance hcursor fun v hv => by
    show _ = EStateM.Result.ok () (v.modifyScript i (·.timeout (u.now + x) (some .giveUp)))
    rw [← hv.now]
    exact executeStatement_of_missing (ha.congr hv.scripts hv.commands) hx
      (hv.active.trans hactive) (by rw [hv.script i]; exact htext)
  refine ⟨w', ?_, hscript, ?_⟩
  · -- whether it begins to wait or waits already, the cursor stays
    have hcursor' : ((u.script i).timeout (u.now + x) (some .giveUp)).cursor = some a := by
      unfold Script.timeout
      split
      · exact hcursor
      · exact hcursor
    rw [htick, Script.isRunning, hcursor']
    rfl
  · rw [hw'.scripts, World.size_modifyScript]

/-! ## The wait -/

/-- Time goes by for a script that waits at a statement for a text.  Entries are added to its journal
and removed from it, and before the deadline there may be ticks that do not find the text; in between
anything may happen that leaves the script as it is.  The list says which entries were added since
the journal was last cleared. -/
inductive Waits (host : Host σ ι) (i : Nat) (a : Statement) (text : String) (n : Int)
    (deadline : Float) (w : World σ ι) (said : List JournalEntry) :
    World σ ι → List JournalEntry → Prop
  /-- Nothing has happened yet. -/
  | start : Waits host i a text n deadline w said w said
  /-- Something happens to the clock, the stores or the other scripts. -/
  | meanwhile {u v heard} : Waits host i a text n deadline w said u heard →
      v.script i = u.script i → u.scripts.size ≤ v.scripts.size →
      Waits host i a text n deadline w said v heard
  /-- An entry is added. -/
  | added {u heard} (e : JournalEntry) : Waits host i a text n deadline w said u heard →
      Waits host i a text n deadline w said (u.modifyScript i (·.addEntry e)) (heard ++ [e])
  /-- The journal is cleared. -/
  | cleared {u heard} : Waits host i a text n deadline w said u heard →
      Waits host i a text n deadline w said
        (u.modifyScript i fun s => { s with journal := [] }) []
  /-- The script gets a tick before the deadline that does not find the text. -/
  | tick {u v heard alive} : Waits host i a text n deadline w said u heard →
      ¬ deadline ≤ u.now → a.Awaits i text n u → ¬ Mentioned text (lastEntries heard) →
      tick host i u = .ok alive v → Waits host i a text n deadline w said v heard

/-- **While a script waits, only its journal changes**: neither the cursor nor the deadline. -/
theorem Waits.script (hh : host.Unobtrusive) {w u : World σ ι} {s : Script ι} {deadline : Float}
    {said heard : List JournalEntry} (hi : i < w.scripts.size) (hcursor : s.cursor = some a)
    (hs : w.script i = s.waiting deadline (lastEntries said))
    (h : Waits host i a text n deadline w said u heard) :
    i < u.scripts.size ∧ u.script i = s.waiting deadline (lastEntries heard) := by
  induction h with
  | start => exact ⟨hi, hs⟩
  | meanwhile _ hscript hsize ih => exact ⟨Nat.lt_of_lt_of_le ih.1 hsize, hscript.trans ih.2⟩
  | @added u heard e _ ih =>
    rw [World.size_modifyScript, World.script_modifyScript_self _ ih.1]
    refine ⟨ih.1, ?_⟩
    have hjournal : (u.script i).journal = lastEntries heard := by
      rw [ih.2]
      rfl
    have hadded := Script.journal_addEntry hjournal e
    show { u.script i with journal := ((u.script i).addEntry e).journal } = _
    rw [hadded, ih.2]
    rfl
  | cleared _ ih =>
    rw [World.size_modifyScript, World.script_modifyScript_self _ ih.1, ih.2]
    exact ⟨ih.1, rfl⟩
  | @tick u v heard alive _ hearly ha htext htick ih =>
    obtain ⟨hiu, hu⟩ := ih
    obtain ⟨x, hx⟩ := ha.seconds
    have hdeadline : (u.script i).deadline = some deadline := by
      rw [hu]
      rfl
    have hchance := chance_of_waiting host (by rw [hu]; rfl) hdeadline hearly
    obtain ⟨w', htick', hscript, hsize⟩ := tick_of_missing (u := { u with active := some i }) hh hiu
      hchance rfl
      (by show (u.script i).cursor = _; rw [hu]; exact hcursor)
      (ha.congr rfl rfl) hx (by show ¬ Mentioned text (u.script i).journal; rw [hu]; exact htext)
    rw [htick] at htick'
    cases htick'
    refine ⟨by rw [hsize]; exact hiu, hscript.trans ?_⟩
    show (u.script i).timeout (u.now + x) (some .giveUp) = _
    rw [hu, Script.timeout_waiting]

end

end Cadence
