/-
  ENTRIES — what the number of an object in a list stands for later.

  The number goes in as its decimal text, so that a later change of the alias that was used does not
  touch the entry.  But a text is all that goes in, and it is resolved again whenever it is read:
  the digits themselves may be the name of an alias.

  1. **Changes of aliases** (`Renames`) — commands that set aliases or remove them, in any order,
     with the changes that were made.  They change nothing but aliases, and the alias of a name is
     what it was last set to (`Renames.alias_eq`).

  2. **Digits** (`asSerial_of_digits`) — what is written as the digits of a number stands for what
     their alias stands for, and for the number only if they are no alias.

  3. **What is put in** (`entry_of_push`) — a push of the number of an object leaves an entry with
     its digits in the list.

  4. **The headline** (`Renames.entry`) — the three together: the entry stands for the number
     exactly as long as no alias of its digits stands for something else.
-/
import Cadence.Proofs.Locating.Sources
import Cadence.Proofs.Stores.Forced

namespace Cadence

open ScriptM

section

variable {σ ι : Type}

/-! ## Changes of aliases -/

/-- A change of an alias: its name and what it stands for from then on. -/
structure AliasChange where
  /-- The name. -/
  name : String
  /-- The value; none if the alias was removed. -/
  value : Option Value

/-- The change that is made when an alias is set; none if its arguments cannot be resolved. -/
def changesOfSetting (host : Host σ ι) (name serial : Argument) (w : World σ ι) :
    List AliasChange :=
  match w.asString name, asSerial host serial w with
  | .ok t, .ok v _ => [⟨t, some v⟩]
  | _, _ => []

/-- The change that is made when an alias is removed. -/
def changesOfRemoval (name : Argument) (w : World σ ι) : List AliasChange :=
  match w.asString name with
  | .ok t => [⟨t, none⟩]
  | .error _ => []

/-- The changes that a command makes. -/
def aliasChanges (host : Host σ ι) (c : Bundled.Command) (args : List Argument) (w : World σ ι) :
    List AliasChange :=
  match c, args with
  | .setAlias, name :: serial :: _ => changesOfSetting host name serial w
  | .unsetAlias, name :: _ => changesOfRemoval name w
  | _, _ => []

/-- What a name stands for after changes. -/
def lastValue (t : String) (before : Option Value) (past : List AliasChange) : Option Value :=
  past.foldl (fun v r => if r.name = t then r.value else v) before

theorem lastValue_append (t : String) (before : Option Value) (past more : List AliasChange) :
    lastValue t before (past ++ more) = lastValue t (lastValue t before past) more := by
  unfold lastValue
  rw [List.foldl_append]

/-- Changes of other names are no changes of this one. -/
theorem lastValue_of_forall_ne {t : String} {past : List AliasChange} (h : ∀ r ∈ past, r.name ≠ t)
    (before : Option Value) : lastValue t before past = before := by
  induction past with
  | nil => rfl
  | cons r rest ih =>
    obtain ⟨hr, hrest⟩ := List.forall_mem_cons.mp h
    show lastValue t (if r.name = t then r.value else before) rest = before
    rw [if_neg hr]
    exact ih hrest

/-- Commands that set aliases or remove them, with the changes that they made. -/
inductive Renames (host : Host σ ι) (w : World σ ι) : List AliasChange → World σ ι → Prop where
  /-- No command was run. -/
  | start : Renames host w [] w
  /-- A command is run; it may fail. -/
  | command {past : List AliasChange} {u : World σ ι} (run : Renames host w past u)
      (c : Bundled.Command) (hc : c = .setAlias ∨ c = .unsetAlias) (args : List Argument)
      (force : Bool) :
      Renames host w (past ++ aliasChanges host c args u)
        ((Bundled.runCommand host c args force).after u)

section

variable {host : Host σ ι} (h : host.PureAliases) {w : World σ ι}
include h

/-- **A command for aliases** changes aliases only, and only by what it notes. -/
theorem runCommand_aliasChanges {c : Bundled.Command} (hc : c = .setAlias ∨ c = .unsetAlias)
    (args : List Argument) (force : Bool) :
    ∃ aliases : Table Value,
      (Bundled.runCommand host c args force).after w = { w with aliases } ∧
      ∀ t, aliases.get? t = lastValue t (w.aliases.get? t) (aliasChanges host c args w) := by
  rcases hc with rfl | rfl
  · match args with
    | [] | [_] => exact ⟨w.aliases, rfl, fun t => rfl⟩
    | name :: serial :: rest =>
      show ∃ aliases : Table Value, ScriptM.after (do
          let t ← Bundled.string name
          let v ← asSerial host serial
          modify fun w => { w with aliases := w.aliases.insert t v }
          return true : ScriptM σ ι Bool) w = { w with aliases } ∧
        ∀ t, aliases.get? t =
          lastValue t (w.aliases.get? t) (changesOfSetting host name serial w)
      rw [after_string_bind]
      unfold changesOfSetting
      cases hname : w.asString name with
      | error fault => exact ⟨w.aliases, rfl, fun t => rfl⟩
      | ok t =>
        have hlook := looking.asSerial h.looks serial w
        cases hv : asSerial host serial w with
        | error fault u =>
          obtain rfl : w = u := hlook.trans (after_of_error hv)
          exact ⟨w.aliases, after_bind_of_error hv, fun t => rfl⟩
        | ok v u =>
          obtain rfl : w = u := hlook.trans (after_of_ok hv)
          refine ⟨w.aliases.insert t v, after_bind_of_ok hv, fun t' => ?_⟩
          exact Table.get?_insert w.aliases t t' v
  · match args with
    | [] => exact ⟨w.aliases, rfl, fun t => rfl⟩
    | name :: rest =>
      show ∃ aliases : Table Value, ScriptM.after (do
          let t ← Bundled.string name
          modify fun w => { w with aliases := w.aliases.erase t }
          return true : ScriptM σ ι Bool) w = { w with aliases } ∧
        ∀ t, aliases.get? t = lastValue t (w.aliases.get? t) (changesOfRemoval name w)
      rw [after_string_bind]
      unfold changesOfRemoval
      cases hname : w.asString name with
      | error fault => exact ⟨w.aliases, rfl, fun t => rfl⟩
      | ok t =>
        refine ⟨w.aliases.erase t, rfl, fun t' => ?_⟩
        exact Table.get?_erase w.aliases t t'

/-- **The alias of a name** is what it was last set to, and nothing else has changed. -/
theorem Renames.alias_eq {past : List AliasChange} {u : World σ ι} (run : Renames host w past u) :
    ∃ aliases : Table Value, u = { w with aliases } ∧
      ∀ t, aliases.get? t = lastValue t (w.aliases.get? t) past := by
  induction run with
  | start => exact ⟨w.aliases, rfl, fun t => rfl⟩
  | command _ c hc args force ih =>
    obtain ⟨aliases, rfl, ha⟩ := ih
    obtain ⟨aliases', hafter, ha'⟩ := runCommand_aliasChanges h hc args force
    refine ⟨aliases', hafter, fun t => ?_⟩
    rw [ha' t, lastValue_append, ← ha t]

end

/-! ## Digits -/

/-- What the digits of a number stand for, given what they are an alias for. -/
def digitsStandFor (n : Nat) : Option Value → Value
  | none | some .null => .int n
  | some v => v

/-- **Digits** that are no variable and no computed alias stand for their alias, or for the
number. -/
theorem asSerial_of_digits (host : Host σ ι) {w : World σ ι} {e : Argument} {n : Nat}
    (hn : n < 2 ^ 32) (he : e.lexeme = some (intText n)) (hbound : ∀ b, ¬ w.Binds e b)
    (hnone : w.registry.aliases.get? (intText n) = none) :
    asSerial host e w = .ok (digitsStandFor n (w.aliases.get? (intText n))) w := by
  have hends : w.Ends e e := ⟨.refl, hbound⟩
  have hconsulted : Consulted host (intText n) w _ w := .stored hnone
  have hnumber (hv : (w.aliases.get? (intText n)).getD .null = .null) :
      asSerial host e w = .ok (.int n) w := by
    rw [hv] at hconsulted
    rw [(asSerial_of_no_alias hends he hconsulted).1, toUInt_intText hn]
  cases halias : w.aliases.get? (intText n) with
  | none => exact hnumber (by rw [halias]; rfl)
  | some v =>
    rw [halias] at hconsulted
    cases v with
    | null => exact hnumber (by rw [halias]; rfl)
    | _ => exact (asSerial_of_alias hends he hconsulted nofun).1

/-! ## What is put in -/

/-- What stands in a list for the number of an object, if an argument was found to have it. -/
def entryFor (a : Argument) (n : Nat) : Argument where
  owner := a.owner
  site := .root (mintedNode n a.site.line)

theorem markedEntry_of_serial {host : Host σ ι} {w : World σ ι} {a : Argument} {n : Nat}
    (hn : n < 2 ^ 32) (htest : isSerial host a w = .ok true w)
    (hvalue : asSerial host a w = .ok (.int n) w) :
    markedEntry host a w = .ok ⟨entryFor a n, some (.int n)⟩ w := by
  have hwritten : Value.written (.int n) = .ok (intText n) :=
    writeInt_of_writable (writable_of_lt hn)
  unfold markedEntry
  rw [bind_of_ok htest, if_pos rfl, bind_of_ok hvalue, hwritten]
  rfl

/-- **A push of the number of an object** leaves an entry with its digits in the list: its own, or
one that a forced push has found there. -/
theorem entry_of_push {host : Host σ ι} (h : host.PureAliases) {w w' : World σ ι}
    {list value : Argument} {more : List Argument} {force b : Bool} {n : Nat} (hn : n < 2 ^ 32)
    (hvalue : asSerial host value w = .ok (.int n) w)
    (hpush : Bundled.runCommand host .pushList (list :: value :: more) force w = .ok b w') :
    ∃ name, w.asString list = .ok name ∧ w' = { w with lists := w'.lists } ∧
      ∃ e ∈ w'.items name, e.lexeme = some (intText n) ∧
        (e = entryFor value n ∨ force = true ∧ e ∈ w.items name) := by
  have htest : isSerial host value w = .ok true w := by
    rcases serial_cases h w value with
      ⟨-, ⟨v, hv, htest⟩ | ⟨error, hv, -⟩ | ⟨t, hv, -⟩⟩ | ⟨error, -, hv, -⟩
    · exact htest
    · cases hv.symm.trans hvalue
    · cases hv.symm.trans hvalue
    · cases hv.symm.trans hvalue
  -- the arguments are resolved in the world before
  obtain ⟨_, u, hrun, hdone⟩ := bind_ok hpush
  cases hdone
  rw [push_eq] at hrun
  obtain ⟨p, v, hres, hput⟩ := bind_ok hrun
  unfold resolvePush at hres
  obtain ⟨front, w₁, hfront, hmark⟩ := bind_ok hres
  obtain rfl : w = w₁ := (looking.atFront more).ok hfront
  rw [bind_of_ok (markedEntry_of_serial hn htest hvalue)] at hmark
  obtain ⟨name, w₂, hlist, hplace⟩ := bind_ok hmark
  obtain ⟨hname, rfl⟩ := ok_of_reading hlist
  cases hplace
  -- and the entry is put in
  obtain ⟨u, w₃, hread, hset⟩ := bind_ok hput
  obtain ⟨hin, rfl⟩ := ok_of_reading hread
  cases hset
  obtain ⟨-, hlists⟩ := World.pushList_eq_ok hin
  obtain ⟨e, he, hlex, hwhose⟩ := World.entry_of_pushList hin
  exact ⟨name, hname, hlists, e, he, hlex, hwhose⟩

/-! ## The headline -/

/-- The digits stand for the number as long as they are an alias of nothing else. -/
theorem digitsStandFor_eq_iff {n : Nat} {meaning : Option Value} :
    digitsStandFor n meaning = .int n ↔
      meaning = none ∨ meaning = some .null ∨ meaning = some (.int n) := by
  cases meaning with
  | none => simp [digitsStandFor]
  | some v => cases v <;> simp [digitsStandFor]

/-- **What an entry stands for later.**  The number of an object was pushed to a list; whatever
commands for aliases come after that, the entry stands for what its digits are an alias of, and for
the number exactly as long as they are an alias of nothing else.  So the alias that was used does
not matter any more, and nothing matters but an alias whose name is the digits. -/
theorem Renames.entry {host : Host σ ι} (h : host.PureAliases) {w w' : World σ ι}
    {list value : Argument} {more : List Argument} {force b : Bool} {n : Nat} (hn : n < 2 ^ 32)
    (hvalue : asSerial host value w = .ok (.int n) w)
    (hpush : Bundled.runCommand host .pushList (list :: value :: more) force w = .ok b w') :
    ∃ name, w.asString list = .ok name ∧
      ∃ e ∈ w'.items name, e.lexeme = some (intText n) ∧
        (e = entryFor value n ∨ force = true ∧ e ∈ w.items name) ∧
        ((∀ a, ¬ w'.Binds e a) → w'.registry.aliases.get? (intText n) = none →
          ∀ past u, Renames host w' past u →
            let meaning := lastValue (intText n) (w.aliases.get? (intText n)) past
            e ∈ u.items name ∧
            asSerial host e u = .ok (digitsStandFor n meaning) u ∧
            (asSerial host e u = .ok (.int n) u ↔
              meaning = none ∨ meaning = some .null ∨ meaning = some (.int n)) ∧
            (w.aliases.get? (intText n) = none → (∀ c ∈ past, c.name ≠ intText n) →
              asSerial host e u = .ok (.int n) u)) := by
  obtain ⟨name, hname, hlists, e, he, hlex, hwhose⟩ := entry_of_push h hn hvalue hpush
  refine ⟨name, hname, e, he, hlex, hwhose, ?_⟩
  intro hbound hnone past u run meaning
  obtain ⟨aliases, rfl, ha⟩ := run.alias_eq h
  have halias : aliases.get? (intText n) = meaning := by
    have hw : w'.aliases = w.aliases := by rw [hlists]
    rw [ha, hw]
  have hstands : asSerial host e { w' with aliases } =
      .ok (digitsStandFor n meaning) { w' with aliases } := by
    rw [← halias]
    exact asSerial_of_digits host hn hlex hbound hnone
  refine ⟨he, hstands, ?_, fun hunset hothers => ?_⟩
  · rw [hstands, ← digitsStandFor_eq_iff]
    simp
  · have hnever : meaning = none := (lastValue_of_forall_ne hothers _).trans hunset
    rw [hstands, hnever]
    rfl

end

/-- The coin is in the list. -/
def coinedWorld : World Unit Unit :=
  { coinWorld with lists := Table.empty.insert "l" [entryFor (wordOf 0 "coin") 9] }

/-- Another coin has its name. -/
def recoinedWorld : World Unit Unit :=
  { coinedWorld with aliases := Table.empty.insert "coin" (.int 7) }

/-- The coin is put into the list, and then another coin takes its name: what is in the list is the
first one. -/
theorem entry_coin :
    Bundled.runCommand quietHost .pushList [wordOf 0 "l", wordOf 0 "coin"] false coinWorld =
      .ok true coinedWorld ∧
    Renames quietHost coinedWorld [⟨"coin", some (.int 7)⟩] recoinedWorld ∧
    asSerial quietHost (wordOf 0 "coin") recoinedWorld = .ok (.int 7) recoinedWorld ∧
    ∃ e ∈ recoinedWorld.items "l",
      asSerial quietHost e recoinedWorld = .ok (.int 9) recoinedWorld := by
  have hpure : quietHost.PureAliases := fun token name w => .inl ⟨.null, rfl⟩
  have hpush : Bundled.runCommand quietHost .pushList [wordOf 0 "l", wordOf 0 "coin"] false
      coinWorld = .ok true coinedWorld := rfl
  have run : Renames quietHost coinedWorld [⟨"coin", some (.int 7)⟩] recoinedWorld :=
    Renames.start.command .setAlias (.inl rfl) [wordOf 0 "coin", wordOf 0 "7"] false
  obtain ⟨name, hname, e, -, -, -, hlater⟩ :=
    Renames.entry (n := 9) hpure (by decide) rfl hpush
  cases hname
  have hbound : ∀ a, ¬ coinedWorld.Binds e a := by
    rintro a ⟨t, -, hlook, -⟩
    rw [World.script_of_size_le (Nat.zero_le _)] at hlook
    cases hlook
  obtain ⟨he, -, -, hstays⟩ := hlater hbound rfl _ _ run
  refine ⟨hpush, run, rfl, e, he, hstays rfl ?_⟩
  decide

/-- **An alias may be named by the digits**: the number 5 is put into the list, and then 5 is made
an alias of 7.  From then on the entry stands for 7. -/
theorem entry_of_digits_renamed :
    ∃ w' u, asSerial quietHost (wordOf 0 "5") coinWorld = .ok (.int 5) coinWorld ∧
      Bundled.runCommand quietHost .pushList [wordOf 0 "l", wordOf 0 "5"] false coinWorld =
        .ok true w' ∧
      Bundled.runCommand quietHost .setAlias [wordOf 0 "5", wordOf 0 "7"] false w' = .ok true u ∧
      u.items "l" = [entryFor (wordOf 0 "5") 5] ∧
      asSerial quietHost (entryFor (wordOf 0 "5") 5) u = .ok (.int 7) u :=
  ⟨_, _, rfl, rfl, rfl, rfl, rfl⟩

end Cadence
