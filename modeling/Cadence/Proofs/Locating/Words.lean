/-
  WORDS — bundled words and expressions find what they look for, or fault where it can be traced.

  1. **The host** — it is TIDY if what it does keeps to the triple as statements do, and what it is
     called for around statements does not fail (`Host.Tidy`).
  2. **Bundled words** — one lemma for each operation.  The crux is `finds_listEntry`: what goes
     into a list for an object is the text of a number of 32 bits, since aliases are such numbers,
     and any other text has been read as one.
  3. **Expressions** — an expression is evaluated over tokens inside a statement, and those that it
     hands to a word are inside as well.
-/
import Cadence.Proofs.Locating.Tracing

namespace Cadence

open ScriptM

variable {σ ι : Type}

/-! ## The host -/

/-- An answer for an alias: no value, or the number of an object. -/
def Value.IsAlias (v : Value) : Prop := v = .null ∨ v.IsObject

theorem Value.IsAlias.isObject {v : Value} (h : v.IsAlias) (hv : v ≠ .null) : v.IsObject :=
  h.resolve_left hv

/-- A host that keeps to sound arguments, computes numbers of objects for aliases, and does not fail
where it is called around statements. -/
structure Host.Tidy (host : Host σ ι) : Prop where
  /-- Its commands keep worlds sound, and their faults are traced. -/
  command : ∀ t word args quiet force, (∀ a ∈ args, Argument.Sound a) →
    Locates (host.command t word args quiet force)
  /-- So do its expressions. -/
  expression : ∀ t word args quiet, (∀ a ∈ args, Argument.Sound a) →
    Locates (host.expression t word args quiet)
  /-- Its aliases are numbers of objects. -/
  computedAlias : ∀ t name, Finds Value.IsAlias (host.computedAlias t name)
  /-- Taking output keeps worlds sound. -/
  write : ∀ line, Locates (host.write line)
  /-- Its listeners keep worlds sound, and do not fail. -/
  listener : ∀ t e, Settles (host.listener t e)
  /-- So do its rules. -/
  rule : ∀ t c, Settles (host.rule t c)
  /-- So do its callbacks. -/
  callback : ∀ t, Settles (host.callback t)

/-! ## Suspending and moving scripts -/

theorem locates_seconds (d : Duration) : Locates (seconds d : ScriptM σ ι Float) :=
  .lift (.number d.seconds) fun _ _ => trivial

theorem locates_requireActive (action : String) :
    Locates (requireActive action : ScriptM σ ι Nat) := by
  unfold requireActive
  refine .bind .get fun w _ => ?_
  split
  · exact .any _
  · exact .fail_none _

/-- An operation on the active script. -/
theorem locates_onActive {α : Type} {Q : α → Prop} {action : String} {x : Nat → ScriptM σ ι α}
    (hx : ∀ i, Finds Q (x i)) : Finds Q (requireActive action >>= x) :=
  .bind (locates_requireActive action) fun i _ => hx i

/-- A script is suspended for a time. -/
theorem locates_suspend {f : Float → World σ ι → Script ι → Script ι}
    (hf : ∀ x w, Script.Suspends (f x w)) (i : Nat) (d : Duration) :
    Locates (do
      if (← script i).activity = .running then
        let s ← seconds d
        modify fun w => w.modifyScript i (f s w) : ScriptM σ ι Unit) := by
  refine .bind (.script i) fun s _ => .ite (fun _ => ?_) fun _ => .any _
  refine .bind (locates_seconds d) fun x _ => .modify fun w hw => ?_
  exact hw.modifyScript i fun s hs => hs.suspends (hf x w)

theorem locates_pauseScript (i : Nat) (d : Duration) :
    Locates (pauseScript i d : ScriptM σ ι Unit) :=
  locates_suspend (fun _ _ => Script.suspends_pause _) i d

theorem locates_timeoutScript (i : Nat) (d : Duration) (c : Option (Callback ι)) :
    Locates (timeoutScript i d c : ScriptM σ ι Unit) :=
  locates_suspend (fun _ _ => Script.suspends_timeout _ c) i d

theorem locates_pause (d : Duration) : Locates (pause d : ScriptM σ ι Unit) :=
  locates_onActive fun i => locates_pauseScript i d

theorem locates_timeout (d : Duration) (c : Option (Callback ι)) :
    Locates (timeout d c : ScriptM σ ι Unit) :=
  locates_onActive fun i => locates_timeoutScript i d c

theorem locates_gotoScript (i : Nat) (line : Int) :
    Locates (gotoScript i line : ScriptM σ ι Bool) := by
  unfold gotoScript
  refine .bind (.script i) fun s hs => ?_
  split
  · exact .any _
  · next s' hs' =>
    exact .bind (.modifyScript i fun _ _ => hs.gotoLine? hs') fun _ _ => .any _

theorem locates_gotoLine (line : Int) : Locates (gotoLine line : ScriptM σ ι Bool) := by
  unfold gotoLine
  refine .bind .get fun w _ => ?_
  split
  · exact .any _
  · next i _ => exact locates_gotoScript i line

/-! ## Timers and aliases -/

theorem World.Sound.timers {w : World σ ι} (h : w.Sound) (timers : Table Float) :
    World.Sound { w with timers } := ⟨h.scripts, h.lists, h.aliases⟩

theorem locates_timerExpired (name : String) :
    Locates (timerExpired name : ScriptM σ ι Bool) := by
  refine .modifyGet fun w hw => ⟨trivial, ?_⟩
  unfold World.timerExpired
  split
  · exact hw
  · split
    · exact hw.timers _
    · exact hw

theorem locates_setTimer (name : String) (d : Duration) :
    Locates (setTimer name d : ScriptM σ ι Unit) := by
  have start : Locates (do
      let s ← seconds d
      modify fun w => { w with timers := w.timers.insert name (w.now + s) } :
      ScriptM σ ι Unit) :=
    .bind (locates_seconds d) fun s _ => .modify fun w hw => hw.timers _
  unfold setTimer
  refine .bind .get fun w _ => .ite (fun _ => ?_) fun _ => start
  refine .bind (locates_timerExpired name) fun b _ => ?_
  exact .ite (fun _ => .any _) fun _ => start

section

variable {host : Host σ ι} (hh : host.Tidy)
include hh

/-- **An alias is the number of an object**, if it is one at all. -/
theorem finds_getAlias (name : String) : Finds Value.IsAlias (getAlias host name) := by
  have stored : Finds Value.IsAlias (do return ((← get).aliases.get? name).getD .null :
      ScriptM σ ι Value) := by
    refine .bind .get fun w hw => .pure ?_
    cases hv : w.aliases.get? name with
    | none => exact .inl rfl
    | some v => exact .inr (hw.aliases name v hv)
  unfold getAlias
  refine .bind .get fun w _ => ?_
  cases w.registry.aliases.get? name with
  | none => exact stored
  | some t =>
    refine .bind (hh.computedAlias t name) fun v hv => ?_
    cases v with
    | null => exact stored
    | _ => exact .pure hv

theorem finds_asSerial {a : Argument} (ha : a.Sound) :
    Finds Value.IsObject (asSerial host a) := by
  -- the text is read at the argument that it belongs to, and this one is sound
  let Texts : String × Site → Prop := fun p =>
    ∃ e : Argument, e.Sound ∧ e.lexeme = some p.1 ∧ e.site = p.2
  have htext : Finds Texts (reading fun w : World σ ι => w.resolveText .serial a) := by
    refine .reading (fun w hw => ?_) fun w p hw hp => ?_
    · rcases hw.text ha .serial with ⟨e, t, -, -, h⟩ | ⟨fault, hfault, h⟩
      · rw [h]
        exact .ok _
      · rw [h]
        exact .error hfault
    · rcases hw.text ha .serial with ⟨e, t, he, ht, h⟩ | ⟨fault, -, h⟩
      · obtain rfl := Except.ok.inj (h.symm.trans hp)
        exact ⟨e, he, ht, rfl⟩
      · cases h.symm.trans hp
  unfold asSerial
  refine .bind htext fun p hp => ?_
  obtain ⟨e, he, ht, hsite⟩ := hp
  refine .bind (finds_getAlias hh p.1) fun v hv => ?_
  cases v with
  | null =>
    have hread : Traces (Literal.toUInt (some p.1) (some p.2)) := hsite ▸ he.traces_unsigned ht
    refine .bind (.lift (Q := Value.IsObject ∘ Value.int) hread fun n hn => ?_) fun n hn =>
      .pure hn
    obtain ⟨m, hm, rfl⟩ := Literal.exists_of_toUInt hn
    exact ⟨m, hm, rfl⟩
  | _ => exact .pure (hv.isObject nofun)

theorem locates_isSerial (a : Argument) : Locates (isSerial host a) := by
  have hend : Locates (reading fun w : World σ ι => w.resolve a) := by
    refine .reading (fun w _ => ?_) fun _ _ _ _ => trivial
    unfold World.resolve
    split
    · exact .ok _
    · exact .error trivial
  unfold isSerial
  refine .bind hend fun e _ => ?_
  cases e.lexeme with
  | none => exact .any _
  | some t =>
    refine .bind (finds_getAlias hh t) fun v _ => ?_
    cases v with
    | null =>
      simp only
      split
      · exact .any _
      -- a refusal is an answer here, not a fault
      · exact .any _
      · next fault hno _ =>
        cases fault with
        | script error => exact absurd rfl (hno error)
        | trouble why => exact .throw trivial
    | _ => exact .any _

end

/-! ## Lists -/

theorem locates_string {a : Argument} (ha : a.Sound) :
    Locates (Bundled.string a : ScriptM σ ι String) :=
  .reading (fun _ hw => hw.traces_asString ha) fun _ _ _ _ => trivial

theorem locates_int {a : Argument} (ha : a.Sound) : Locates (Bundled.int a : ScriptM σ ι Int) :=
  .reading (fun _ hw => hw.traces_asInt ha) fun _ _ _ _ => trivial

theorem locates_strings {args : List Argument} (ha : ∀ a ∈ args, Argument.Sound a) :
    Locates (Bundled.strings args : ScriptM σ ι (List String)) := by
  induction args with
  | nil => exact .any _
  | cons a rest ih =>
    refine .bind (locates_string (ha a List.mem_cons_self)) fun _ _ => ?_
    exact .bind (ih fun b hb => ha b (List.mem_cons_of_mem a hb)) fun _ _ => .any _

section

variable {w w' : World σ ι} (hw : w.Sound)
include hw

/-- A list of sound arguments may take the place of another. -/
theorem World.Sound.insertList {items : List Argument} (hitems : ∀ a ∈ items, a.Sound)
    (name : String) : World.Sound { w with lists := w.lists.insert name items } :=
  ⟨hw.scripts, hw.lists.insert hitems name, hw.aliases⟩

theorem World.Sound.requireList {name : String} {items : List Argument}
    (h : w.requireList name = .ok items) : ∀ a ∈ items, a.Sound := by
  unfold World.requireList at h
  split at h
  · next items' hget =>
    cases h
    exact hw.lists name items hget
  · cases h

omit hw in
/-- That there is no list is told at the statement. -/
theorem traces_requireList (w : World σ ι) (name : String) : Traces (w.requireList name) := by
  unfold World.requireList
  split
  · exact .ok _
  · exact .error (Fault.traced_none _)

/-- An empty list. -/
theorem World.Sound.emptyList (name : String) :
    World.Sound { w with lists := w.lists.insert name [] } :=
  hw.insertList (fun _ h => absurd h List.not_mem_nil) name

theorem World.Sound.createList (name : String) : (w.createList name).Sound := by
  unfold World.createList
  split
  · exact hw
  · exact hw.emptyList name

theorem World.Sound.destroyList (name : String) : (w.destroyList name).Sound :=
  ⟨hw.scripts, hw.lists.erase name, hw.aliases⟩

theorem World.Sound.clearList (name : String) : (w.clearList name).Sound :=
  ⟨hw.scripts, hw.lists.update (fun _ _ _ h => absurd h List.not_mem_nil) name, hw.aliases⟩

theorem World.Sound.pushList {name : String} {a : Argument} {front unique : Bool} (ha : a.Sound)
    (h : w.pushList name a front unique = .ok w') : w'.Sound := by
  unfold World.pushList at h
  cases hl : w.requireList name with
  | error fault =>
    rw [hl] at h
    cases h
  | ok items =>
    rw [hl] at h
    have hitems := hw.requireList hl
    have hput : (if unique && items.any (·.same a) then w else
        { w with lists := w.lists.insert name (if front then a :: items else items ++ [a]) }) =
        w' := Except.ok.inj h
    subst hput
    split
    · exact hw
    · refine hw.insertList (fun b hb => ?_) name
      split at hb
      · rcases List.mem_cons.mp hb with rfl | hb
        · exact ha
        · exact hitems b hb
      · rcases List.mem_append.mp hb with hb | hb
        · exact hitems b hb
        · obtain rfl := List.mem_singleton.mp hb
          exact ha

theorem World.Sound.popListValue {name : String} {a : Argument}
    (h : w.popListValue name a = some w') : w'.Sound := by
  unfold World.popListValue at h
  simp only at h
  split at h
  · cases h
    refine hw.insertList (fun b hb => ?_) name
    have hmem := List.mem_of_mem_eraseP hb
    cases hl : w.lists.get? name with
    | none =>
      rw [hl] at hmem
      exact absurd hmem List.not_mem_nil
    | some items =>
      rw [hl] at hmem
      exact hw.lists name items hl b hmem
  · cases h

theorem World.Sound.popList {name : String} {front : Bool}
    (h : w.popList name front = .ok w') : w'.Sound := by
  unfold World.popList at h
  cases hl : w.requireList name with
  | error fault =>
    rw [hl] at h
    cases h
  | ok items =>
    rw [hl] at h
    have hitems := hw.requireList hl
    have htake : (if items.isEmpty then .error (.at none (.emptyList name)) else .ok { w with
        lists := w.lists.insert name (if front then items.tail else items.dropLast) }) =
        (.ok w' : Except Fault (World σ ι)) := h
    split at htake
    · cases htake
    · cases htake
      refine hw.insertList (fun b hb => ?_) name
      split at hb
      · exact hitems b (List.mem_of_mem_tail hb)
      · exact hitems b (List.dropLast_subset _ hb)

theorem World.Sound.listValue {name : String} {i : Int} {a : Argument}
    (h : w.listValue name i = .ok (some a)) : a.Sound := by
  unfold World.listValue at h
  cases hl : w.requireList name with
  | error fault =>
    rw [hl] at h
    cases h
  | ok items =>
    rw [hl] at h
    have hget : (if i < 0 then none else items[i.toNat]?) = some a := Except.ok.inj h
    split at hget
    · cases hget
    · exact hw.requireList hl a (List.mem_of_getElem? hget)

omit hw in
theorem traces_pushList (w : World σ ι) (name : String) (a : Argument) (front unique : Bool) :
    Traces (w.pushList name a front unique) := (traces_requireList w name).map _

omit hw in
theorem traces_listValue (w : World σ ι) (name : String) (i : Int) :
    Traces (w.listValue name i) := (traces_requireList w name).map _

omit hw in
theorem traces_popList (w : World σ ι) (name : String) (front : Bool) :
    Traces (w.popList name front) := by
  unfold World.popList
  cases hl : w.requireList name with
  | error fault => exact .error (traces_requireList w name fault hl)
  | ok items =>
    show Traces (if items.isEmpty then .error (.at none (.emptyList name)) else .ok _)
    split
    · exact .error (Fault.traced_none _)
    · exact .ok _

end

section

variable {host : Host σ ι} (hh : host.Tidy)
include hh

/-- **What goes into a list is sound**: the argument as it is written, or the text of a number of 32
bits. -/
theorem finds_listEntry {a : Argument} (ha : a.Sound) :
    Finds Argument.Sound (Bundled.listEntry host a) := by
  unfold Bundled.listEntry
  refine .bind (locates_isSerial hh a) fun serial _ => .ite (fun _ => ?_) fun _ => .pure ha
  refine .bind (finds_asSerial hh ha) fun v hv => ?_
  obtain ⟨n, hn, rfl⟩ := hv
  have hdigits : Value.written (.int n) = .ok (intText n) :=
    writeInt_of_writable (writable_of_lt hn)
  rw [hdigits]
  refine .bind (.lift (.ok _) fun _ h => Except.ok.inj h) fun digits hd => .pure ?_
  subst hd
  exact .minted hn rfl

theorem locates_push {list value : Argument} {more : List Argument} (hlist : list.Sound)
    (hvalue : value.Sound) (hmore : ∀ a ∈ more, a.Sound) (force : Bool) :
    Locates (Bundled.push host list value more force) := by
  have put : ∀ front, Locates (do
      let entry ← Bundled.listEntry host value
      let name ← Bundled.string list
      set (← reading fun w => w.pushList name entry front force)) := by
    intro front
    refine .bind (finds_listEntry hh hvalue) fun entry hentry => ?_
    refine .bind (locates_string hlist) fun name _ => ?_
    refine .bind (Q := World.Sound) (.reading (fun w _ => traces_pushList w _ _ _ _) ?_) fun w hw =>
      .set hw
    intro w w' hw h
    exact hw.pushList hentry h
  unfold Bundled.push
  cases more with
  | nil => exact .bind (.any _) fun front _ => put front
  | cons side rest =>
    refine .bind (locates_string (hmore side List.mem_cons_self)) fun _ _ => ?_
    exact .bind (.any _) fun front _ => put front

end

theorem locates_pop {list value : Argument} (hlist : list.Sound) (hvalue : value.Sound) :
    Locates (Bundled.pop list value : ScriptM σ ι Unit) := by
  have htext : Traces value.text := by
    unfold Argument.text
    cases ht : value.lexeme with
    | some t => exact .ok t
    | none => exact .error (Fault.traced_at (hvalue.inside_of_absent ht) _)
  unfold Bundled.pop
  refine .bind (locates_string hlist) fun name _ => ?_
  refine .bind (.lift htext fun _ _ => trivial) fun which _ => .ite (fun _ => ?_) fun _ => ?_
  · refine .bind (Q := World.Sound) (.reading (fun w _ => traces_popList w _ _) ?_) fun w hw =>
      .set hw
    intro w w' hw h
    exact hw.popList h
  · refine .modify fun w hw => ?_
    cases h : w.popListValue name value with
    | none => exact hw
    | some w' => exact hw.popListValue h

/-! ## Bundled words -/

theorem locates_waitForJournal {text : Argument} {more : List Argument} (htext : text.Sound)
    (hmore : ∀ a ∈ more, a.Sound) :
    Locates (Bundled.waitForJournal text more : ScriptM σ ι Bool) := by
  have wait : ∀ d : Int, Locates (do
      timeout (.whole d) (some .giveUp)
      return false : ScriptM σ ι Bool) :=
    fun d => .bind (locates_timeout _ _) fun _ _ => .any _
  unfold Bundled.waitForJournal
  refine .bind (locates_string htext) fun wanted _ => .bind .get fun w _ => ?_
  refine .ite (fun _ => .any _) fun _ => ?_
  cases more with
  | nil => exact .bind (.any _) fun d _ => wait d
  | cons d rest => exact .bind (locates_int (hmore d List.mem_cons_self)) fun n _ => wait n

/-- A change of the world that is then reported as done. -/
theorem locates_store {f : World σ ι → World σ ι} (hf : ∀ w : World σ ι, w.Sound → (f w).Sound) :
    Locates (do modify f; return true : ScriptM σ ι Bool) :=
  .bind (.modify hf) fun _ _ => .any _

/-- The active script notes something. -/
theorem locates_noted {f : Script ι → Script ι} (hf : ∀ s : Script ι, (f s).course = s.course) :
    Locates (do modify fun w => w.modifyActive f; return true : ScriptM σ ι Bool) :=
  locates_store fun _ hw => hw.modifyActive fun s hs => hs.noted (hf s)

section

variable {host : Host σ ι} (hh : host.Tidy) {args : List Argument}
  (hargs : ∀ a ∈ args, Argument.Sound a)
include hh hargs

/-- **The bundled commands keep worlds sound, and their faults are traced.** -/
theorem locates_runCommand (c : Bundled.Command) (force : Bool) :
    Locates (Bundled.runCommand host c args force) := by
  unfold Bundled.runCommand
  split
  case h_1 a rest =>
    refine .bind (locates_strings hargs) fun _ _ => ?_
    exact .bind (hh.write _) fun _ _ => .any _
  case h_2 d _ =>
    refine .bind (locates_int (hargs d List.mem_cons_self)) fun _ _ => ?_
    exact .bind (locates_pause _) fun _ _ => .any _
  case h_3 name serial _ =>
    obtain ⟨hname, hrest⟩ := List.forall_mem_cons.mp hargs
    refine .bind (locates_string hname) fun name _ => ?_
    refine .bind (finds_asSerial hh (hrest serial List.mem_cons_self)) fun v hv => ?_
    exact locates_store fun w hw => ⟨hw.scripts, hw.lists, hw.aliases.insert hv name⟩
  case h_4 name _ =>
    refine .bind (locates_string (hargs name List.mem_cons_self)) fun name _ => ?_
    exact locates_store fun w hw => ⟨hw.scripts, hw.lists, hw.aliases.erase name⟩
  case h_5 name d _ =>
    obtain ⟨hname, hrest⟩ := List.forall_mem_cons.mp hargs
    refine .bind (locates_string hname) fun _ _ => ?_
    refine .bind (locates_int (hrest d List.mem_cons_self)) fun _ _ => ?_
    exact .bind (locates_setTimer _ _) fun _ _ => .any _
  case h_6 name _ =>
    refine .bind (locates_string (hargs name List.mem_cons_self)) fun _ _ => ?_
    exact locates_store fun w hw => hw.timers _
  case h_7 name _ =>
    refine .bind (locates_string (hargs name List.mem_cons_self)) fun name _ => ?_
    exact locates_store fun w hw => hw.createList name
  case h_8 name _ =>
    refine .bind (locates_string (hargs name List.mem_cons_self)) fun name _ => ?_
    exact locates_store fun w hw => hw.destroyList name
  case h_9 name _ =>
    refine .bind (locates_string (hargs name List.mem_cons_self)) fun name _ => ?_
    exact locates_store fun w hw => hw.clearList name
  case h_10 list value more =>
    obtain ⟨hlist, hrest⟩ := List.forall_mem_cons.mp hargs
    obtain ⟨hvalue, hmore⟩ := List.forall_mem_cons.mp hrest
    exact .bind (locates_push hh hlist hvalue hmore force) fun _ _ => .any _
  case h_11 list value _ =>
    obtain ⟨hlist, hrest⟩ := List.forall_mem_cons.mp hargs
    exact .bind (locates_pop hlist (hrest value List.mem_cons_self)) fun _ _ => .any _
  case h_12 => exact locates_noted fun _ => rfl
  case h_13 text more =>
    obtain ⟨htext, hmore⟩ := List.forall_mem_cons.mp hargs
    exact locates_waitForJournal htext hmore
  case h_14 serial _ =>
    refine .bind (finds_asSerial hh (hargs serial List.mem_cons_self)) fun v _ => ?_
    refine locates_noted fun s => ?_
    split
    · rfl
    · rfl
  case h_15 => exact locates_noted fun _ => rfl
  case h_16 line _ =>
    refine .bind (locates_int (hargs line List.mem_cons_self)) fun _ _ => ?_
    exact .bind (locates_gotoLine _) fun _ _ => .any _
  case h_17 => exact locates_store fun w hw => hw.modifyActive fun _ hs => hs.returnFromGoto
  case h_18 => exact .fail_none _

/-- The bundled queries as well. -/
theorem locates_runQuery (q : Bundled.Query) : Locates (Bundled.runQuery host q args) := by
  have look : ∀ f : World σ ι → Value, Locates (do return f (← get) : ScriptM σ ι Value) :=
    fun f => .bind .get fun w _ => .any _
  unfold Bundled.runQuery
  split
  case h_1 name _ =>
    refine .bind (locates_string (hargs name List.mem_cons_self)) fun _ _ => ?_
    refine .bind (finds_getAlias hh _) fun v _ => ?_
    cases v with
    | null => exact .any _
    | _ => exact .any _
  case h_2 name _ =>
    refine .bind (locates_string (hargs name List.mem_cons_self)) fun _ _ => ?_
    exact .bind (locates_timerExpired _) fun _ _ => .any _
  case h_4 list value _ =>
    exact .bind (locates_string (hargs list List.mem_cons_self)) fun _ _ => look _
  case h_8 serial _ =>
    exact .bind (finds_asSerial hh (hargs serial List.mem_cons_self)) fun v _ => look _
  case h_9 => exact .any _
  case h_10 => exact .any _
  case h_11 => exact .fail_none _
  all_goals exact .bind (locates_string (hargs _ List.mem_cons_self)) fun _ _ => look _

end

/-! ## Expressions -/

/-- Marks are taken from the front. -/
theorem inside_of_mem_takeMarks {m : Marks} {tokens : List Site} (ht : ∀ t ∈ tokens, t.Inside) :
    ∀ t ∈ (takeMarks m tokens).2, t.Inside := by
  induction tokens generalizing m with
  | nil => exact ht
  | cons s rest ih =>
    unfold takeMarks
    split
    · exact ih (List.forall_mem_cons.mp ht).2
    · exact ht

/-- The arguments of a word are among the tokens that stand there. -/
theorem sound_of_mem_takeArguments {owner : Nat} {tokens : List Site} {a : Argument}
    (ht : ∀ t ∈ tokens, t.Inside) (h : a ∈ (takeArguments owner tokens).1) : a.Sound := by
  obtain ⟨t, hmem, rfl⟩ := List.mem_map.mp h
  exact .inside (ht t ((List.takeWhile_sublist _).subset hmem))

theorem inside_of_mem_takeArguments {owner : Nat} {tokens : List Site} {t : Site}
    (ht : ∀ t ∈ tokens, t.Inside) (h : t ∈ (takeArguments owner tokens).2) : t.Inside :=
  ht t ((List.dropWhile_sublist _).subset h)

/-- A keyword is the first token. -/
theorem tokens_of_keyword? {tokens rest : List Site} {t : Site} {word : String}
    (h : keyword? tokens = some (t, word, rest)) : tokens = t :: rest := by
  cases tokens with
  | nil => cases h
  | cons s more =>
    obtain ⟨w, -, hw⟩ := Option.map_eq_some_iff.mp h
    cases hw
    rfl

section

variable {host : Host σ ι} (hh : host.Tidy) (owner : Nat)
include hh

theorem locates_callExpression {args : List Argument} (hargs : ∀ a ∈ args, Argument.Sound a)
    (h : Handler Bundled.Query ι) (word : String) (quiet : Bool) :
    Locates (callExpression host h word args quiet) := by
  cases h with
  | bundled q => exact locates_runQuery hh hargs q
  | host t => exact hh.expression t word args quiet hargs

omit hh in
theorem locates_expressionHandler? (word : String) :
    Locates (expressionHandler? word : ScriptM σ ι (Option (Handler Bundled.Query ι))) :=
  .bind .get fun _ _ => .any _

/-- What an operand leaves over is inside the statement as well. -/
theorem finds_evaluateOperand {tokens : List Site} (ht : ∀ t ∈ tokens, t.Inside) :
    Finds (fun p => ∀ t ∈ p.2, Site.Inside t) (evaluateOperand host owner tokens) := by
  unfold evaluateOperand
  -- the tokens behind the marks are all that counts from here on
  have hmarks : ∀ t ∈ (takeMarks {} tokens).2, t.Inside := inside_of_mem_takeMarks ht
  revert hmarks
  generalize takeMarks {} tokens = p
  obtain ⟨marks, tokens⟩ := p
  intro hmarks
  simp only
  split
  · exact .fail_none _
  · next t rest =>
    obtain ⟨hin, hrest⟩ := List.forall_mem_cons.mp hmarks
    split
    case h_1 =>
      exact .bind (.lift (traces_toInt hin _) fun _ _ => trivial) fun _ _ => .pure hrest
    case h_2 =>
      exact .bind (.lift (traces_toUInt hin _) fun _ _ => trivial) fun _ _ => .pure hrest
    case h_3 =>
      exact .bind (.lift (traces_toDouble hin _) fun _ _ => trivial) fun _ _ => .pure hrest
    case h_4 => exact .pure hrest
    case h_5 =>
      split
      · exact .pure hrest
      · refine .bind (locates_expressionHandler? _) fun h _ => ?_
        split
        · exact .pure hrest
        · refine .bind (locates_callExpression hh (fun a ha => ?_) _ _ _) fun v _ => .pure ?_
          · exact sound_of_mem_takeArguments hrest ha
          · intro t (h : t ∈ (takeArguments owner rest).2)
            exact inside_of_mem_takeArguments hrest h
    case h_6 => exact .fail hin _

theorem locates_evaluateUnary {tokens : List Site} (ht : ∀ t ∈ tokens, t.Inside) :
    Locates (evaluateUnary host owner tokens) := by
  have hmarks : ∀ t ∈ (takeMarks {} tokens).2, t.Inside := inside_of_mem_takeMarks ht
  unfold evaluateUnary
  simp only
  split
  · exact .fail_head hmarks _
  · next t word rest hk =>
    rw [tokens_of_keyword? hk] at hmarks
    obtain ⟨hin, hrest⟩ := List.forall_mem_cons.mp hmarks
    refine .bind (locates_expressionHandler? _) fun h _ => ?_
    split
    · exact .fail hin _
    · refine .bind (locates_callExpression hh (fun a ha => ?_) _ _ _) fun v _ => ?_
      · exact sound_of_mem_takeArguments hrest ha
      · exact .lift (traces_compare hin _ _ _) fun _ _ => trivial

theorem locates_evaluateBinary {tokens : List Site} (ht : ∀ t ∈ tokens, t.Inside) :
    Locates (evaluateBinary host owner tokens) := by
  unfold evaluateBinary
  refine .bind (finds_evaluateOperand hh owner ht) fun p hp => ?_
  obtain ⟨lhs, rest⟩ := p
  cases rest with
  | nil => exact .fail_head ht _
  | cons op rest =>
    obtain ⟨hop, hrest⟩ := List.forall_mem_cons.mp hp
    refine .ite (fun _ => .fail hop _) fun _ => ?_
    refine .bind (finds_evaluateOperand hh owner hrest) fun q hq => ?_
    obtain ⟨rhs, rest⟩ := q
    simp only
    split
    · next extra more => exact .fail (hq extra List.mem_cons_self) _
    · exact .lift (traces_compare hop _ _ _) fun _ _ => trivial

theorem locates_evaluateSimple {expr : Site} (he : expr.Inside) :
    Locates (evaluateSimple host owner expr) := by
  have hparts : ∀ t ∈ expr.children, t.Inside := fun t ht => he.children ht
  unfold evaluateSimple
  refine .ite (fun _ => .fail he _) fun _ => .ite (fun _ => ?_) fun _ => ?_
  · exact locates_evaluateUnary hh owner hparts
  · exact locates_evaluateBinary hh owner hparts

/-- The parts of a chain are evaluated in pairs, an operator and an expression. -/
theorem locates_evaluateRest (result : Bool) {parts : List Site} (hp : ∀ t ∈ parts, t.Inside) :
    Locates (evaluateRest host owner result parts) := by
  induction result, parts using evaluateRest.induct with
  | case1 result =>
    unfold evaluateRest
    exact .any _
  | case2 result op rest h =>
    unfold evaluateRest
    rw [if_pos h]
    exact .fail (hp op List.mem_cons_self) _
  | case3 result op h =>
    unfold evaluateRest
    rw [if_neg h]
    exact .fail (hp op List.mem_cons_self) _
  | case4 result op h part rest hpart ih =>
    obtain ⟨hin, hrest⟩ := List.forall_mem_cons.mp (List.forall_mem_cons.mp hp).2
    unfold evaluateRest
    rw [if_neg h]
    simp only
    rw [if_pos hpart]
    exact .bind (locates_evaluateSimple hh owner hin) fun answer _ => ih answer hrest
  | case5 result op h part rest hpart =>
    obtain ⟨hin, -⟩ := List.forall_mem_cons.mp (List.forall_mem_cons.mp hp).2
    unfold evaluateRest
    rw [if_neg h]
    simp only
    rw [if_neg hpart]
    exact .fail hin _

/-- **An expression inside a statement has traced faults.** -/
theorem locates_evaluate {expr : Site} (he : expr.Inside) : Locates (evaluate host owner expr) := by
  induction expr using evaluate.induct with
  | case1 expr h =>
    rw [evaluate, if_pos h]
    exact .fail he _
  | case2 expr h hl hf =>
    rw [evaluate, if_neg h, if_pos hl]
    split
    · exact .fail he _
    · next first hs => cases hs.symm.trans hf
  | case3 expr h hl first hf _ ih =>
    rw [evaluate, if_neg h, if_pos hl]
    split
    · exact .fail he _
    · next first' hs =>
      obtain rfl : first' = first := Option.some.inj (hs.symm.trans hf)
      refine .bind (ih (he.firstChild? hf)) fun result _ => ?_
      exact locates_evaluateRest hh owner result fun t ht => he.following hf ht
  | case4 expr h hl =>
    rw [evaluate, if_neg h, if_neg hl]
    exact locates_evaluateSimple hh owner he

theorem locates_evaluateGuard {keyword : Site} (hk : keyword.Inside) :
    Locates (evaluateGuard host owner keyword) := by
  unfold evaluateGuard
  split
  · exact .fail hk _
  · next expr hexpr => exact locates_evaluate hh owner (hk.firstChild? hexpr)

end

end Cadence
