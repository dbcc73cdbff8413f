/-
  ATOMIC WORDS — a bundled word that fails has changed nothing.

  A failed statement may be tried again, and a host may go on after it, so what a word did before it
  failed would stay.

  1. **Looking** (`Looks`) — an operation looks if it leaves the world as it was, whether it fails
     or not.  To resolve an argument is to look, if computed aliases are pure.

  2. **All or nothing** (`Atomic`) — an operation is atomic if it leaves the world as it was when it
     fails.  A sequence is atomic if it looks first and ends in something atomic, or begins with
     something atomic and cannot fail after it.

  3. **The crux** (`atomic_setTimer`) — to start a timer is neither of the two: it asks whether the
     timer has run out, which may remove it, and only then turns its duration into a real.  What
     saves it is that an argument is a number of 32 bits, and such a number is a real.

  4. **The headline** (`Bundled.all_or_nothing`) — all bundled words are atomic.  Only output lies
     outside: whoever takes it may fail half way, after everything else has been looked at.
-/
import Cadence.Proofs.Arguments.Objects
import Cadence.Proofs.Numbers.Durations
import Cadence.Proofs.Running.Failing
import Cadence.Proofs.Stores.Resolving
import Cadence.Proofs.Stores.Timers

namespace Cadence

open ScriptM

section

variable {σ ι α β : Type}

/-! ## Looking -/

/-- The operation leaves the world as it was, whether it fails or not. -/
def Looks (x : ScriptM σ ι α) : Prop := Keeps Eq x

/-- Equality holds where nothing happens, and goes from step to step. -/
theorem looking : Stepwise (Eq : World σ ι → World σ ι → Prop) := ⟨fun _ => rfl, Eq.trans⟩

theorem Host.PureAliases.looks {host : Host σ ι} (h : host.PureAliases) (token : ι)
    (name : String) : Looks (host.computedAlias token name) := by
  intro w
  rcases h token name w with ⟨v, hv⟩ | ⟨fault, hfault⟩
  · exact (after_of_ok hv).symm
  · exact (after_of_error hfault).symm

/-! ## All or nothing -/

/-- When the operation fails, the world is as it was. -/
def Atomic (x : ScriptM σ ι α) : Prop := Spares Eq x

namespace Atomic

theorem of_looks {x : ScriptM σ ι α} (hx : Looks x) : Atomic x := Spares.of_keeps hx

theorem of_succeeds {x : ScriptM σ ι α} (hx : Succeeds x) : Atomic x := Spares.of_succeeds hx

/-- A sequence that looks first. -/
theorem bind {x : ScriptM σ ι α} {f : α → ScriptM σ ι β} (hx : Looks x) (hf : ∀ a, Atomic (f a)) :
    Atomic (x >>= f) := by
  intro w fault w' h
  rw [bind_apply] at h
  cases hxw : x w with
  | ok a u =>
    obtain rfl : w = u := hx.ok hxw
    rw [hxw] at h
    exact hf a w fault w' h
  | error fault' u =>
    rw [hxw] at h
    cases h
    exact of_looks hx w fault w' hxw

/-- A sequence that cannot fail after its first part. -/
theorem before {x : ScriptM σ ι α} {f : α → ScriptM σ ι β} (hx : Atomic x)
    (hf : ∀ a, Succeeds (f a)) : Atomic (x >>= f) :=
  Spares.bind_succeeds hx hf

/-- A change that is then reported. -/
theorem report {x : ScriptM σ ι α} (hx : Atomic x) (b : β) :
    Atomic (do let _ ← x; return b) :=
  hx.before fun _ => .pure b

theorem modify (f : World σ ι → World σ ι) : Atomic (modify f : ScriptM σ ι Unit) :=
  of_succeeds fun w => ⟨(), f w, rfl⟩

/-- The world becomes what was read from it. -/
theorem reading_set (f : World σ ι → Except Fault (World σ ι)) :
    Atomic (do set (← ScriptM.reading f) : ScriptM σ ι Unit) :=
  .bind (looking.reading f) fun w => of_succeeds fun _ => ⟨(), w, rfl⟩

theorem ite {c : Prop} [Decidable c] {x y : ScriptM σ ι α} (hx : Atomic x) (hy : Atomic y) :
    Atomic (if c then x else y) :=
  Spares.ite hx hy

end Atomic

/-! ## Timers and the active script -/

/-- A timer is started by any duration that is a real. -/
theorem succeeds_setTimer {d : Duration} {s : Float} (hs : d.seconds = .ok s) (name : String)
    (w : World σ ι) : ∃ w', setTimer name d w = .ok () w' := by
  rw [setTimer_eq]
  split
  · exact ⟨_, armTimer_of_seconds name hs _⟩
  · exact ⟨w, rfl⟩

/-- **Starting a timer is the last thing that may fail, and it does not**, for the duration was read
as a number of 32 bits. -/
theorem atomic_setTimer (name : String) (d : Argument) :
    Atomic (do
      setTimer name (.whole (← Bundled.int d))
      return true : ScriptM σ ι Bool) := by
  intro w fault w' hfail
  cases hd : w.asInt d with
  | error fault' =>
    have hint : Bundled.int d w = .error fault' w := reading_of_error hd
    rw [bind_of_error hint] at hfail
    cases hfail
    rfl
  | ok n =>
    have hint : Bundled.int d w = .ok n w := reading_of_ok hd
    obtain ⟨s, hs⟩ := seconds_of_asInt hd
    obtain ⟨u, hu⟩ := succeeds_setTimer hs name w
    rw [bind_of_ok hint, bind_of_ok hu] at hfail
    cases hfail

/-- To suspend a script for a time is to look at it, and to change it in the end. -/
theorem atomic_suspend (f : Float → World σ ι → World σ ι) (i : Nat) (d : Duration) :
    Atomic (do
      if (← script i).activity = .running then
        let s ← seconds d
        modify (f s) : ScriptM σ ι Unit) :=
  .bind (looking.script i) fun _ =>
    .ite (.bind (looking.lift _) fun s => .modify (f s)) (.of_looks (looking.pure ()))

theorem atomic_pause (d : Duration) : Atomic (pause d : ScriptM σ ι Unit) :=
  .bind (looking.requireActive _) fun i => atomic_suspend _ i d

theorem atomic_timeout (d : Duration) (c : Option (Callback ι)) :
    Atomic (timeout d c : ScriptM σ ι Unit) :=
  .bind (looking.requireActive _) fun i => atomic_suspend _ i d

/-! ## Bundled words -/

/-- What is stored under a text. -/
theorem atomic_store (a : Argument) (f : String → World σ ι → World σ ι) :
    Atomic (do
      let name ← Bundled.string a
      modify (f name)
      return true : ScriptM σ ι Bool) :=
  .bind (looking.string a) fun name => (Atomic.modify (f name)).report true

/-- What the world answers for a text. -/
theorem atomic_ask (a : Argument) (g : String → World σ ι → Value) :
    Atomic (do
      let name ← Bundled.string a
      return g name (← get) : ScriptM σ ι Value) :=
  .of_looks (looking.bind (looking.string a) fun _ => looking.bind looking.get fun _ =>
    looking.pure _)

theorem atomic_pop (list value : Argument) :
    Atomic (Bundled.pop list value : ScriptM σ ι Unit) := by
  unfold Bundled.pop
  refine .bind (looking.string list) fun name => .bind (looking.lift _) fun which => ?_
  exact .ite (.reading_set _) (.modify _)

theorem atomic_waitForJournal (text : Argument) (more : List Argument) :
    Atomic (Bundled.waitForJournal text more : ScriptM σ ι Bool) := by
  have wait (d : Int) : Atomic (do
      timeout (.whole d) (some .giveUp)
      return false : ScriptM σ ι Bool) := (atomic_timeout _ _).report false
  unfold Bundled.waitForJournal
  refine .bind (looking.string text) fun wanted => .bind looking.get fun w => ?_
  refine .ite (.of_looks (looking.pure _)) ?_
  cases more with
  | nil => exact .bind (looking.pure _) wait
  | cons d rest => exact .bind (looking.int d) wait

section

variable {host : Host σ ι} (h : host.PureAliases)
include h

theorem atomic_push (list value : Argument) (more : List Argument) (force : Bool) :
    Atomic (Bundled.push host list value more force) := by
  have put (front : Bool) : Atomic (do
      let entry ← Bundled.listEntry host value
      let name ← Bundled.string list
      set (← reading fun w => w.pushList name entry front force)) :=
    .bind (looking.listEntry h.looks value) fun entry => .bind (looking.string list) fun name =>
      .reading_set _
  unfold Bundled.push
  cases more with
  | nil => exact .bind (looking.pure _) put
  | cons side rest => exact .bind (looking.string side) fun _ => .bind (looking.pure _) put

/-- A bundled command is atomic, but for output. -/
theorem atomic_runCommand {c : Bundled.Command} (hc : c ≠ .sysmsg) (args : List Argument)
    (force : Bool) : Atomic (Bundled.runCommand host c args force) := by
  unfold Bundled.runCommand
  split
  case h_1 => exact absurd rfl hc
  case h_2 d _ => exact .bind (looking.int d) fun n => (atomic_pause _).report _
  case h_3 name serial _ =>
    refine .bind (looking.string name) fun name => ?_
    refine .bind (looking.asSerial h.looks serial) fun v => ?_
    exact (Atomic.modify _).report _
  case h_4 name _ => exact atomic_store name _
  case h_5 name d _ =>
    exact .bind (looking.string name) fun name => atomic_setTimer name d
  case h_6 name _ => exact atomic_store name _
  case h_7 name _ => exact atomic_store name _
  case h_8 name _ => exact atomic_store name _
  case h_9 name _ => exact atomic_store name _
  case h_10 list value more => exact (atomic_push h list value more force).report _
  case h_11 list value _ => exact (atomic_pop list value).report _
  case h_12 => exact (Atomic.modify _).report _
  case h_13 text more => exact atomic_waitForJournal text more
  case h_14 serial _ =>
    exact .bind (looking.asSerial h.looks serial) fun v => (Atomic.modify _).report _
  case h_15 => exact (Atomic.modify _).report _
  case h_16 line _ =>
    refine .bind (looking.int line) fun n => .of_succeeds ?_
    exact .bind (succeeds_gotoLine n) fun _ => .pure _
  case h_17 => exact (Atomic.modify _).report _
  case h_18 => exact .of_looks (looking.throw _)

/-- A bundled query is atomic. -/
theorem atomic_runQuery (q : Bundled.Query) (args : List Argument) :
    Atomic (Bundled.runQuery host q args) := by
  unfold Bundled.runQuery
  split
  case h_1 name _ =>
    refine .bind (looking.string name) fun name => ?_
    refine .bind (looking.getAlias h.looks name) fun v => ?_
    cases v with
    | null => exact .of_looks (looking.pure _)
    | _ => exact .of_looks (looking.pure _)
  case h_2 name _ =>
    -- the answer may remove the timer, but it is always given
    refine .bind (looking.string name) fun name => .before (.of_succeeds ?_) fun _ => .pure _
    exact fun w => ⟨_, _, rfl⟩
  case h_3 name _ => exact atomic_ask name _
  case h_4 list value _ => exact atomic_ask list _
  case h_5 name _ => exact atomic_ask name _
  case h_6 name _ => exact atomic_ask name _
  case h_7 text _ => exact atomic_ask text _
  case h_8 serial _ =>
    refine .of_looks (looking.bind (looking.asSerial h.looks serial) fun _ => ?_)
    exact looking.bind looking.get fun _ => looking.pure _
  case h_9 => exact .of_looks (looking.pure _)
  case h_10 => exact .of_looks (looking.pure _)
  case h_11 => exact .of_looks (looking.throw _)

end

/-- Output fails before it is handed out, and then nothing has changed, or where it is taken. -/
theorem error_of_sysmsg {host : Host σ ι} {args : List Argument} {force : Bool}
    {w w' : World σ ι} {fault : Fault}
    (hfail : Bundled.runCommand host .sysmsg args force w = .error fault w') :
    w' = w ∨ ∃ words, Bundled.strings args w = .ok words w ∧
      host.write (" ".intercalate words) w = .error fault w' := by
  cases args with
  | nil =>
    cases hfail
    exact .inl rfl
  | cons a rest =>
    cases hwords : Bundled.strings (a :: rest) w with
    | error fault' u =>
      obtain rfl : w = u := Atomic.of_looks (looking.strings (a :: rest)) w fault' u hwords
      cases (bind_of_error hwords).symm.trans hfail
      exact .inl rfl
    | ok words u =>
      obtain rfl : w = u := Keeps.ok (looking.strings (a :: rest)) hwords
      have hout := (bind_of_ok hwords).symm.trans hfail
      cases hwrite : host.write (" ".intercalate words) w with
      | ok _ v => cases (bind_of_ok hwrite).symm.trans hout
      | error fault' v =>
        cases (bind_of_error hwrite).symm.trans hout
        exact .inr ⟨words, rfl, hwrite⟩

/-- **A bundled word that fails has changed nothing**: not the aliases, the lists and the timers,
not what was written, not which script is active, and nothing of any script.  The one exception is
not its own: output that has been put together is handed out, and who takes it may fail. -/
theorem Bundled.all_or_nothing {host : Host σ ι} (h : host.PureAliases) :
    (∀ c args force w fault w', runCommand host c args force w = .error fault w' →
      w' = w ∨ ∃ words, c = .sysmsg ∧ strings args w = .ok words w ∧
        host.write (" ".intercalate words) w = .error fault w') ∧
    ∀ q args w fault w', runQuery host q args w = .error fault w' → w' = w := by
  constructor
  · intro c args force w fault w' hfail
    by_cases hc : c = .sysmsg
    · subst hc
      rcases error_of_sysmsg hfail with hsame | ⟨words, hwords, hwrite⟩
      · exact .inl hsame
      · exact .inr ⟨words, rfl, hwords, hwrite⟩
    · exact .inl (atomic_runCommand h hc args force w fault w' hfail).symm
  · intro q args w fault w' hfail
    exact (atomic_runQuery h q args w fault w' hfail).symm

end

/-- A timer in it has run out. -/
def dueWorld : World Unit Unit := { surlyWorld with timers := Table.empty.insert "t" 0 }

/-- A chest is no length of time: the timer is not started, and is still there.  The key is out of
order: it does not go into a list, and is not looked for among what is ignored. -/
theorem all_or_nothing_due :
    surlyHost.PureAliases ∧
    (∃ fault w', Bundled.runCommand surlyHost .setTimer [wordOf 0 "t", wordOf 0 "chest"] false
      dueWorld = .error fault w' ∧ w' = dueWorld) ∧
    (∃ fault w', Bundled.runCommand surlyHost .pushList [wordOf 0 "l", wordOf 0 "key"] true
      dueWorld = .error fault w' ∧ w' = dueWorld) ∧
    ∃ fault w', Bundled.runQuery surlyHost .ignored [wordOf 0 "key"] dueWorld = .error fault w' ∧
      w' = dueWorld := by
  obtain ⟨hcommand, hquery⟩ := Bundled.all_or_nothing surlyHost_pure
  refine ⟨surlyHost_pure, ⟨_, _, rfl, ?_⟩, ⟨_, _, rfl, ?_⟩, _, _, rfl, ?_⟩
  · rcases hcommand .setTimer [wordOf 0 "t", wordOf 0 "chest"] false dueWorld _ _ rfl with
      hsame | ⟨_, hc, _⟩
    · exact hsame
    · cases hc
  · rcases hcommand .pushList [wordOf 0 "l", wordOf 0 "key"] true dueWorld _ _ rfl with
      hsame | ⟨_, hc, _⟩
    · exact hsame
    · cases hc
  · exact hquery .ignored [wordOf 0 "key"] dueWorld _ _ rfl

end Cadence
