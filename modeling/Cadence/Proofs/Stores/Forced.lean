/-
  FORCED PUSHES — a list to which all pushes are forced has no two entries for one thing.

  A push resolves its value first: the number of an object goes in as its decimal text, however it
  was spelled, and anything else as it is written.  A forced push then looks for the text, and puts
  the entry in only if there is none like it.

  1. **Marks** (`Mark`) — the entries of the list are kept a second time, each with the number that
     it was put in for (`markedEntry`).  The marks go along with the entries: `track` says what
     a command does to them, and erasing the numbers gives the list (`marked_runCommand`).

  2. **Runs** (`ForcedRun`) — the commands for lists and aliases in any order, all pushes forced,
     and in between anything that leaves the list alone.

  3. **The crux** (`track_cases`) — a command takes marks away, or adds one whose text is new.  The
     text of a mark with a number is the number's (`Mark.Told`), so new texts are new numbers.

  4. **The headline** (`ForcedRun.distinct`) — with what a pop takes (`PopTakes`).
-/
import Cadence.Proofs.Stores.Atomic
import Cadence.Proofs.Stores.Lists

namespace Cadence

open ScriptM

section

variable {σ ι : Type}

/-! ## Lists that stay -/

/-- A list is the same as before. -/
def SameItems (name : String) (w w' : World σ ι) : Prop := w'.items name = w.items name

theorem sameItems_stepwise (name : String) :
    Stepwise (SameItems name : World σ ι → World σ ι → Prop) :=
  ⟨fun _ => rfl, fun h h' => h'.trans h⟩

/-! ## Marks -/

/-- An entry of a list, with the number that it was put in for, if that was the number of an
object. -/
structure Mark where
  /-- The entry. -/
  argument : Argument
  /-- The number. -/
  serial : Option Value

/-- The text of the entry is that of the number. -/
def Mark.Told (m : Mark) : Prop :=
  ∀ v, m.serial = some v → ∃ t, v.written = .ok t ∧ m.argument.lexeme = some t

/-- What goes into a list for an argument, with its number. -/
def markedEntry (host : Host σ ι) (a : Argument) : ScriptM σ ι Mark := do
  if ← isSerial host a then
    let v ← asSerial host a
    let digits ← lift (v.written.mapError fun f => .trouble (.number f))
    let node : Node := { kind := .serial, lexeme := some digits, line := a.site.line }
    return { argument := { owner := a.owner, site := .root node }, serial := some v }
  else return { argument := a, serial := none }

/-- Without the number it is what the command puts in. -/
theorem listEntry_eq (host : Host σ ι) (a : Argument) :
    Bundled.listEntry host a = do return (← markedEntry host a).argument := by
  unfold Bundled.listEntry markedEntry
  rw [bind_assoc]
  congr 1
  funext serial
  cases serial with
  | false => rfl
  | true => simp

theorem told_of_markedEntry {host : Host σ ι} {a : Argument} {w u : World σ ι} {m : Mark}
    (h : markedEntry host a w = .ok m u) : m.Told := by
  unfold markedEntry at h
  obtain ⟨serial, w₁, -, h⟩ := bind_ok h
  cases serial with
  | false =>
    cases h
    exact fun v hv => nomatch hv
  | true =>
    obtain ⟨v, w₂, -, h⟩ := bind_ok h
    obtain ⟨digits, w₃, hdigits, h⟩ := bind_ok h
    cases h
    intro v' hv'
    cases hv'
    refine ⟨digits, ?_, rfl⟩
    cases hw : v.written with
    | ok t =>
      rw [hw] at hdigits
      cases hdigits
      rfl
    | error f =>
      rw [hw] at hdigits
      cases hdigits

/-- What a push is about to do. -/
structure Placing where
  /-- The entry. -/
  mark : Mark
  /-- The list. -/
  list : String
  /-- Does it go to the front? -/
  front : Bool

/-- Does a push go to the front? -/
def atFront : List Argument → ScriptM σ ι Bool
  | [] => return false
  | side :: _ => do return decide (Text.fold (← Bundled.string side) = "front")

/-- Resolves the arguments of a push. -/
def resolvePush (host : Host σ ι) (list value : Argument) (more : List Argument) :
    ScriptM σ ι Placing := do
  let front ← atFront more
  let mark ← markedEntry host value
  let name ← Bundled.string list
  return { mark, list := name, front }

theorem push_eq (host : Host σ ι) (list value : Argument) (more : List Argument) (force : Bool) :
    Bundled.push host list value more force = (do
      let p ← resolvePush host list value more
      set (← reading fun w => w.pushList p.list p.mark.argument p.front force)) := by
  unfold Bundled.push resolvePush
  rw [listEntry_eq]
  cases more with
  | nil => simp [atFront]
  | cons side rest => simp [atFront]

theorem Stepwise.atFront {R : World σ ι → World σ ι → Prop} (hR : Stepwise R)
    (more : List Argument) : Keeps R (Cadence.atFront more : ScriptM σ ι Bool) := by
  cases more with
  | nil => exact hR.pure _
  | cons side rest => exact hR.bind (hR.string side) fun _ => hR.pure _

/-- What a push resolves leaves alone what computed aliases leave alone. -/
theorem Stepwise.resolvePush {R : World σ ι → World σ ι → Prop} (hR : Stepwise R)
    {host : Host σ ι} (h : ∀ token name, Keeps R (host.computedAlias token name))
    (list value : Argument) (more : List Argument) :
    Keeps R (Cadence.resolvePush host list value more) := by
  have hmark : Keeps R (markedEntry host value) := by
    unfold markedEntry
    refine hR.bind (hR.isSerial h value) fun serial => .ite ?_ (hR.pure _)
    refine hR.bind (hR.asSerial h value) fun v => hR.bind (hR.lift _) fun _ => ?_
    exact hR.pure _
  unfold Cadence.resolvePush
  refine hR.bind (hR.atFront more) fun front => hR.bind hmark fun mark => ?_
  exact hR.bind (hR.string list) fun _ => hR.pure _

theorem told_of_resolvePush {host : Host σ ι} {list value : Argument} {more : List Argument}
    {w u : World σ ι} {p : Placing} (h : resolvePush host list value more w = .ok p u) :
    p.mark.Told := by
  unfold resolvePush at h
  obtain ⟨front, w₁, -, h⟩ := bind_ok h
  obtain ⟨mark, w₂, hmark, h⟩ := bind_ok h
  obtain ⟨name, w₃, -, h⟩ := bind_ok h
  cases h
  exact told_of_markedEntry hmark

/-! ## What a command does to the marks -/

/-- The marks of a list after a forced push: the new one stands at its end, unless its text is there
already. -/
def Placing.into (p : Placing) (L : String) (marks : List Mark) : List Mark :=
  if p.list = L ∧ ¬ marks.any (·.argument.same p.mark.argument) then
    if p.front then p.mark :: marks else marks ++ [p.mark]
  else marks

/-- The marks after a pop: one end is missing, or the first mark with the text of an argument. -/
def popMarks (which : String) (value : Argument) (marks : List Mark) : List Mark :=
  if Text.fold which = "front" then marks.tail
  else if Text.fold which = "back" then marks.dropLast
  else marks.eraseP (·.argument.same value)

/-- The marks of a list after a push to some list. -/
def marksAfterPush (host : Host σ ι) (L : String) (list value : Argument) (more : List Argument)
    (w : World σ ι) (marks : List Mark) : List Mark :=
  match resolvePush host list value more w with
  | .ok p u => if u.lists.contains p.list then p.into L marks else marks
  | .error _ _ => marks

/-- The marks of a list after a pop from some list. -/
def marksAfterPop (L : String) (list value : Argument) (w : World σ ι) (marks : List Mark) :
    List Mark :=
  match w.asString list, value.text with
  | .ok name, .ok which => if name = L then popMarks which value marks else marks
  | _, _ => marks

/-- The marks of a list after some list was emptied or removed. -/
def marksAfterRemoval (L : String) (list : Argument) (w : World σ ι) (marks : List Mark) :
    List Mark :=
  match w.asString list with
  | .ok name => if name = L then [] else marks
  | .error _ => marks

/-- The marks of a list after a command. -/
def track (host : Host σ ι) (L : String) (c : Bundled.Command) (args : List Argument)
    (w : World σ ι) (marks : List Mark) : List Mark :=
  match c, args with
  | .pushList, list :: value :: more => marksAfterPush host L list value more w marks
  | .popList, list :: value :: _ => marksAfterPop L list value w marks
  | .removeList, list :: _ | .clearList, list :: _ => marksAfterRemoval L list w marks
  | _, _ => marks

/-- The commands for lists and aliases. -/
def Bundled.Command.IsForStores : Bundled.Command → Prop
  | .createList | .removeList | .clearList | .pushList | .popList | .setAlias | .unsetAlias => True
  | _ => False

/-- A push is to a list. -/
def PushesTo (host : Host σ ι) (L : String) (args : List Argument) (w : World σ ι) : Prop :=
  ∃ list value more p u, args = list :: value :: more ∧
    resolvePush host list value more w = .ok p u ∧ p.list = L

section

variable {host : Host σ ι} {L : String} {marks : List Mark} {w : World σ ι}

/-- An entry is looked for among the marks as in the list. -/
theorem any_same_map (a : Argument) (marks : List Mark) :
    (marks.map Mark.argument).any (·.same a) = marks.any (·.argument.same a) := by
  rw [List.any_map]
  rfl

/-- **A pop** takes the same from the marks as from the list. -/
theorem marked_pop (hw : w.items L = marks.map Mark.argument) (list value : Argument) :
    ((Bundled.pop list value).after w).items L =
      (marksAfterPop L list value w marks).map Mark.argument := by
  unfold Bundled.pop
  rw [after_string_bind]
  unfold marksAfterPop
  cases hname : w.asString list with
  | error fault => exact hw
  | ok name =>
    cases ht : value.text with
    | error fault => exact hw
    | ok which =>
      show (ScriptM.after (if Text.fold which = "front" ∨ Text.fold which = "back" then
          do set (← reading fun w => w.popList name (Text.fold which = "front"))
        else modify fun w => (w.popListValue name value).getD w) w).items L =
          (if name = L then popMarks which value marks else marks).map Mark.argument
      unfold popMarks
      by_cases hfront : Text.fold which = "front"
      · rw [if_pos (.inl hfront), after_reading_set, World.items_popList, hw]
        by_cases hL : name = L
        · simp [hL, hfront]
        · simp [hL]
      · by_cases hback : Text.fold which = "back"
        · rw [if_pos (.inr hback), after_reading_set, World.items_popList, hw]
          by_cases hL : name = L
          · simp [hL, hback]
          · simp [hL]
        · have hneither : ¬ (Text.fold which = "front" ∨ Text.fold which = "back") :=
            fun h => h.elim hfront hback
          rw [if_neg hneither]
          show World.items ((w.popListValue name value).getD w) L = _
          rw [World.items_popListValue, hw]
          by_cases hL : name = L
          · rw [if_pos hL, if_pos hL, if_neg hfront, if_neg hback, List.eraseP_map]
            rfl
          · rw [if_neg hL, if_neg hL]

/-- A removal takes the marks with it. -/
theorem marked_removal (hw : w.items L = marks.map Mark.argument) (list : Argument)
    {f : String → World σ ι → World σ ι}
    (hf : ∀ name, (f name w).items L = if name = L then [] else w.items L) :
    (ScriptM.after (do
      let name ← Bundled.string list
      modify (f name)
      return true : ScriptM σ ι Bool) w).items L =
      (marksAfterRemoval L list w marks).map Mark.argument := by
  rw [after_string_bind]
  unfold marksAfterRemoval
  cases w.asString list with
  | error fault => exact hw
  | ok name =>
    show (f name w).items L = (if name = L then [] else marks).map Mark.argument
    rw [hf name, hw]
    split
    · rfl
    · rfl

variable (hh : ∀ token name, Keeps (SameItems L) (host.computedAlias token name))
include hh

/-- **A push** puts the same among the marks as into the list, if it is forced or goes elsewhere. -/
theorem marked_push (hw : w.items L = marks.map Mark.argument) {list value : Argument}
    {more : List Argument} {force : Bool}
    (hforce : PushesTo host L (list :: value :: more) w → force = true) :
    ((Bundled.push host list value more force).after w).items L =
      (marksAfterPush host L list value more w marks).map Mark.argument := by
  rw [push_eq]
  have hkeeps := (sameItems_stepwise L).resolvePush hh list value more w
  unfold marksAfterPush
  cases hres : resolvePush host list value more w with
  | error fault u =>
    rw [after_of_error hres] at hkeeps
    rw [after_bind_of_error hres]
    exact hkeeps.trans hw
  | ok p u =>
    rw [after_of_ok hres] at hkeeps
    have hu : u.items L = marks.map Mark.argument := hkeeps.trans hw
    rw [after_bind_of_ok hres, after_reading_set, World.items_pushList, hu]
    show _ = (if u.lists.contains p.list then p.into L marks else marks).map Mark.argument
    by_cases hlist : p.list = L
    · obtain rfl := hforce ⟨list, value, more, p, u, rfl, hres, hlist⟩
      rw [Bool.true_and, any_same_map]
      by_cases hthere : u.lists.contains p.list = true
      · rw [if_pos hthere]
        unfold Placing.into
        by_cases hfound : marks.any (·.argument.same p.mark.argument) = true
        · rw [if_neg fun h => h.2.2 hfound, if_neg fun h => h.2 hfound]
        · have hnew : p.list = L ∧ ¬ marks.any (·.argument.same p.mark.argument) :=
            ⟨hlist, hfound⟩
          rw [if_pos hnew, if_pos ⟨hlist, hthere, hfound⟩]
          cases p.front with
          | false => simp
          | true => simp
      · rw [if_neg hthere, if_neg fun h => hthere h.2.1]
    · have hinto : p.into L marks = marks := if_neg fun h => hlist h.1
      rw [if_neg fun h => hlist h.1, hinto, ite_self]

/-- **The marks go along with the list**, whatever a command does to it. -/
theorem marked_runCommand (hw : w.items L = marks.map Mark.argument) {c : Bundled.Command}
    (hc : c.IsForStores) {args : List Argument} {force : Bool}
    (hforce : c = .pushList → PushesTo host L args w → force = true) :
    ((Bundled.runCommand host c args force).after w).items L =
      (track host L c args w marks).map Mark.argument := by
  have hstep : Stepwise (SameItems L : World σ ι → World σ ι → Prop) := sameItems_stepwise L
  cases c
  case pushList =>
    match args with
    | [] | [_] => exact hw
    | list :: value :: more =>
      show ((do let _ ← Bundled.push host list value more force; return true :
        ScriptM σ ι Bool).after w).items L = _
      rw [after_report]
      exact marked_push hh hw (hforce rfl)
  case popList =>
    match args with
    | [] | [_] => exact hw
    | list :: value :: more =>
      show ((do let _ ← Bundled.pop list value; return true : ScriptM σ ι Bool).after w).items L = _
      rw [after_report]
      exact marked_pop hw list value
  case removeList =>
    match args with
    | [] => exact hw
    | list :: rest => exact marked_removal hw list fun name => w.items_erase name L
  case clearList =>
    match args with
    | [] => exact hw
    | list :: rest => exact marked_removal hw list fun name => w.items_clearList name L
  case createList =>
    match args with
    | [] => exact hw
    | list :: rest =>
      refine Eq.trans ?_ hw
      refine hstep.bind (hstep.string list) (fun name => ?_) w
      exact hstep.bind (.modify fun u => u.items_createList name L) fun _ => hstep.pure _
  case setAlias =>
    match args with
    | [] | [_] => exact hw
    | name :: serial :: rest =>
      refine Eq.trans ?_ hw
      refine hstep.bind (hstep.string name) (fun name => ?_) w
      refine hstep.bind (hstep.asSerial hh serial) fun v => ?_
      exact hstep.bind (.modify fun u => rfl) fun _ => hstep.pure _
  case unsetAlias =>
    match args with
    | [] => exact hw
    | name :: rest =>
      refine Eq.trans ?_ hw
      refine hstep.bind (hstep.string name) (fun name => ?_) w
      exact hstep.bind (.modify fun u => rfl) fun _ => hstep.pure _
  all_goals exact hc.elim

end

/-- What a pop leaves stands in the order in which it stood. -/
theorem popMarks_sublist (which : String) (value : Argument) (marks : List Mark) :
    (popMarks which value marks).Sublist marks := by
  unfold popMarks
  split
  · exact List.tail_sublist marks
  · split
    · exact List.dropLast_sublist marks
    · exact List.eraseP_sublist

/-- **A command takes marks away, or adds one whose text is new.** -/
theorem track_cases (host : Host σ ι) (L : String) (c : Bundled.Command) (args : List Argument)
    (w : World σ ι) (marks : List Mark) :
    (track host L c args w marks).Sublist marks ∨
      ∃ m : Mark, m.Told ∧ (∀ b ∈ marks, b.argument.lexeme ≠ m.argument.lexeme) ∧
        (track host L c args w marks = m :: marks ∨
          track host L c args w marks = marks ++ [m]) := by
  have hremoval (list : Argument) : (marksAfterRemoval L list w marks).Sublist marks := by
    unfold marksAfterRemoval
    split
    · split
      · exact List.nil_sublist marks
      · exact List.Sublist.refl marks
    · exact List.Sublist.refl marks
  unfold track
  split
  case h_1 list value more =>
    unfold marksAfterPush
    cases hres : resolvePush host list value more w with
    | error fault u => exact .inl (List.Sublist.refl marks)
    | ok p u =>
      simp only
      split
      · unfold Placing.into
        by_cases hnew : p.list = L ∧ ¬ marks.any (·.argument.same p.mark.argument)
        · have hfresh : ∀ b ∈ marks, b.argument.lexeme ≠ p.mark.argument.lexeme := by
            intro b hb hsame
            exact hnew.2 (List.any_eq_true.mpr ⟨b, hb, decide_eq_true hsame⟩)
          refine .inr ⟨p.mark, told_of_resolvePush hres, hfresh, ?_⟩
          rw [if_pos hnew]
          cases p.front with
          | true => exact .inl rfl
          | false => exact .inr rfl
        · rw [if_neg hnew]
          exact .inl (List.Sublist.refl marks)
      · exact .inl (List.Sublist.refl marks)
  case h_2 list value more =>
    refine .inl ?_
    unfold marksAfterPop
    split
    · split
      · exact popMarks_sublist _ value marks
      · exact List.Sublist.refl marks
    · exact List.Sublist.refl marks
  case h_3 list rest => exact .inl (hremoval list)
  case h_4 list rest => exact .inl (hremoval list)
  case h_5 => exact .inl (List.Sublist.refl marks)

/-! ## Runs -/

/-- No two marks have one text, and those with a number have the text of the number. -/
structure Distinct (marks : List Mark) : Prop where
  /-- No two marks have one text. -/
  texts : marks.Pairwise fun a b => a.argument.lexeme ≠ b.argument.lexeme
  /-- The texts are those of the numbers. -/
  told : ∀ m ∈ marks, m.Told

namespace Distinct

variable {marks fewer : List Mark} {m : Mark}

theorem sublist (h : Distinct marks) (hfewer : fewer.Sublist marks) : Distinct fewer :=
  ⟨h.texts.sublist hfewer, fun m hm => h.told m (hfewer.subset hm)⟩

theorem cons (h : Distinct marks) (hm : m.Told)
    (hfresh : ∀ b ∈ marks, b.argument.lexeme ≠ m.argument.lexeme) : Distinct (m :: marks) := by
  refine ⟨List.pairwise_cons.mpr ⟨fun b hb => (hfresh b hb).symm, h.texts⟩, ?_⟩
  exact List.forall_mem_cons.mpr ⟨hm, h.told⟩

theorem snoc (h : Distinct marks) (hm : m.Told)
    (hfresh : ∀ b ∈ marks, b.argument.lexeme ≠ m.argument.lexeme) : Distinct (marks ++ [m]) := by
  constructor
  · refine List.pairwise_append.mpr ⟨h.texts, List.pairwise_singleton _ m, ?_⟩
    intro b hb m' hm'
    obtain rfl := List.mem_singleton.mp hm'
    exact hfresh b hb
  · intro b hb
    rcases List.mem_append.mp hb with hb | hb
    · exact h.told b hb
    · obtain rfl := List.mem_singleton.mp hb
      exact hm

/-- **New texts are new numbers**, for one number has one text. -/
theorem serials (h : Distinct marks) :
    marks.Pairwise fun a b => ∀ u v, a.serial = some u → b.serial = some v → u ≠ v := by
  refine h.texts.imp_of_mem fun {a b} ha hb htexts u v hu hv huv => htexts ?_
  obtain ⟨s, hs, has⟩ := h.told a ha u hu
  obtain ⟨t, ht, hbt⟩ := h.told b hb v hv
  subst huv
  cases hs.symm.trans ht
  rw [has, hbt]

end Distinct

/-- Runs in which all pushes to a list are forced, with the marks of its entries. -/
inductive ForcedRun (host : Host σ ι) (L : String) : List Mark → World σ ι → Prop where
  /-- The list has no entries yet. -/
  | start {w : World σ ι} (h : w.items L = []) : ForcedRun host L [] w
  /-- A command for lists or aliases is run; if it is a push to the list, it is forced. -/
  | command {marks : List Mark} {w : World σ ι} (run : ForcedRun host L marks w)
      (c : Bundled.Command) (hc : c.IsForStores) (args : List Argument) (force : Bool)
      (hforce : c = .pushList → PushesTo host L args w → force = true) :
      ForcedRun host L (track host L c args w marks)
        ((Bundled.runCommand host c args force).after w)
  /-- Anything happens that leaves the list alone. -/
  | elsewhere {marks : List Mark} {u v : World σ ι} (run : ForcedRun host L marks u)
      (h : SameItems L u v) : ForcedRun host L marks v

namespace ForcedRun

variable {host : Host σ ι} {L : String} {marks : List Mark} {w : World σ ι}

/-- The marks are those of the entries. -/
theorem items_eq (hh : ∀ token name, Keeps (SameItems L) (host.computedAlias token name))
    (run : ForcedRun host L marks w) : w.items L = marks.map Mark.argument := by
  induction run with
  | start h => exact h
  | command _ c hc args force hforce ih => exact marked_runCommand hh ih hc hforce
  | elsewhere _ h ih => exact h.trans ih

theorem marks_distinct (run : ForcedRun host L marks w) : Distinct marks := by
  induction run with
  | start => exact ⟨List.Pairwise.nil, fun m hm => absurd hm List.not_mem_nil⟩
  | @command marks w _ c hc args force hforce ih =>
    rcases track_cases host L c args w marks with hless | ⟨m, hm, hfresh, hmore | hmore⟩
    · exact ih.sublist hless
    · rw [hmore]
      exact ih.cons hm hfresh
    · rw [hmore]
      exact ih.snoc hm hfresh
  | elsewhere _ _ ih => exact ih

end ForcedRun

/-! ## The headline -/

/-- **Forced pushes do away with repetitions.**  At the end of a run in which all pushes to a list
were forced, no two of its entries have one text, and no two were put in for one number, however the
number was spelled.  A pop from any list takes the entry at the end that is asked for, or the first
one with the text, and leaves the rest in order; if there is none it leaves everything.  Computed
aliases may do what they like, but for touching the list. -/
theorem ForcedRun.distinct {host : Host σ ι} {L : String} {marks : List Mark} {w : World σ ι}
    (hh : ∀ token name, Keeps (SameItems L) (host.computedAlias token name))
    (run : ForcedRun host L marks w) :
    w.items L = marks.map Mark.argument ∧
    (w.items L).Pairwise (fun a b => a.lexeme ≠ b.lexeme) ∧
    marks.Pairwise (fun a b => ∀ u v, a.serial = some u → b.serial = some v → u ≠ v) ∧
    (∀ args force b w', Bundled.runCommand host .popList args force w = .ok b w' →
      ∃ list value more name which, args = list :: value :: more ∧
        w.asString list = .ok name ∧ value.lexeme = some which ∧
        (∀ other, other ≠ name → w'.items other = w.items other) ∧
        (PopTakes which (w.items name) (w'.items name) ∨
          Text.fold which ≠ "front" ∧ Text.fold which ≠ "back" ∧
            (∀ a ∈ w.items name, a.lexeme ≠ some which) ∧ w' = w)) ∧
    ∀ args force fault w', Bundled.runCommand host .popList args force w = .error fault w' →
      w' = w := by
  have hitems := run.items_eq hh
  have hdistinct := run.marks_distinct
  refine ⟨hitems, ?_, hdistinct.serials, ?_, ?_⟩
  · rw [hitems]
    exact List.pairwise_map.mpr hdistinct.texts
  · intro args force b w' h
    obtain ⟨list, value, more, hargs, hpop⟩ := runCommand_popList h
    obtain ⟨name, which, hname, hvalue, hothers, htakes⟩ := takes_of_pop hpop
    exact ⟨list, value, more, name, which, hargs, hname, hvalue, hothers, htakes⟩
  · intro args force fault w' h
    match args with
    | [] | [_] =>
      cases h
      rfl
    | list :: value :: more =>
      exact ((atomic_pop list value).report true w fault w' h).symm

end

/-- There is a list, and a coin. -/
def coinWorld : World Unit Unit where
  host := ()
  aliases := Table.empty.insert "coin" (.int 9)
  lists := Table.empty.insert "l" []

/-- A forced push, with the marks. -/
def pushed (args : List Argument) (before : List Mark × World Unit Unit) :
    List Mark × World Unit Unit :=
  (track quietHost "l" .pushList args before.2 before.1,
    (Bundled.runCommand quietHost .pushList args true).after before.2)

/-- The coin, its number in two other spellings, and a word for the front. -/
def purse : List Mark × World Unit Unit :=
  pushed [wordOf 0 "l", wordOf 0 "x", wordOf 0 "front"] (pushed [wordOf 0 "l", wordOf 0 "0x9"]
    (pushed [wordOf 0 "l", wordOf 0 " 009 "] (pushed [wordOf 0 "l", wordOf 0 "coin"]
      ([], coinWorld))))

theorem forcedRun_pushed (before : List Mark × World Unit Unit) (args : List Argument)
    (run : ForcedRun quietHost "l" before.1 before.2) :
    ForcedRun quietHost "l" (pushed args before).1 (pushed args before).2 :=
  run.command .pushList trivial args true fun _ _ => rfl

theorem purse_run : ForcedRun quietHost "l" purse.1 purse.2 := by
  have empty : ForcedRun quietHost "l" [] coinWorld := .start rfl
  have one := forcedRun_pushed ([], coinWorld) [wordOf 0 "l", wordOf 0 "coin"] empty
  have two := forcedRun_pushed _ [wordOf 0 "l", wordOf 0 " 009 "] one
  have three := forcedRun_pushed _ [wordOf 0 "l", wordOf 0 "0x9"] two
  exact forcedRun_pushed _ [wordOf 0 "l", wordOf 0 "x", wordOf 0 "front"] three

/-- There are two entries, and one of them is the coin. -/
theorem distinct_purse :
    ForcedRun quietHost "l" purse.1 purse.2 ∧
    (purse.2.items "l").map Argument.lexeme = [some "x", some "9"] ∧
    purse.1.map Mark.serial = [none, some (.int 9)] ∧
    (purse.2.items "l").Pairwise (fun a b => a.lexeme ≠ b.lexeme) := by
  have hquiet (token : Unit) (name : String) :
      Keeps (SameItems "l") (quietHost.computedAlias token name) := fun _ => rfl
  obtain ⟨-, htexts, -⟩ := purse_run.distinct hquiet
  exact ⟨purse_run, by decide +kernel, rfl, htexts⟩

end Cadence
