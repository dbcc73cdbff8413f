/-
  OBJECTS — the test for the number of an object against the number itself.

  Whether an argument is the number of an object is asked before the number is had.  Both follow the
  chain of bindings to its last text, ask what this is an alias for, and read it as an unsigned
  number otherwise; the test does it a second time.

  1. **Pure aliases** (`Host.PureAliases`) — a computed alias that is asked leaves the world as it
     is.  It may fail.
  2. **The crux** (`serial_cases`) — of the ways in which the two can end there are four, and only in
     the last of them the test does not say what the number does: where a computed alias reports
     a script error (`AliasRaises`), for the test takes no notice of the errors of aliases.
  3. **The headline** (`isSerial_agrees`) — with it, that what is put into a list is never had after
     it was found to be there.
-/
import Cadence.Bundled.Handlers
import Cadence.Proofs.Arguments.Chains

namespace Cadence

open ScriptM

variable {σ ι : Type} {host : Host σ ι} {w w' : World σ ι} {a e : Argument}

/-! ## Circles -/

/-- A chain that comes back to itself is followed in vain. -/
theorem World.resolve_of_circle (h : ¬ w.Acyclic a) : w.resolve a = .error (.trouble .cycle) := by
  unfold resolve
  split
  · next e he => exact absurd (ends_of_follow? he).acyclic h
  · rfl

theorem World.resolveText_of_circle (h : ¬ w.Acyclic a) (reading : Reading) :
    w.resolveText reading a = .error (.trouble .cycle) := by
  unfold resolveText
  rw [resolve_of_circle h]

theorem asSerial_of_circle (host : Host σ ι) (h : ¬ w.Acyclic a) :
    asSerial host a w = .error (.trouble .cycle) w ∧
      isSerial host a w = .error (.trouble .cycle) w := by
  have hread : reading (fun w => w.resolveText .serial a) w = .error (.trouble .cycle) w := by
    rw [reading_apply, World.resolveText_of_circle h]
  have hres : reading (fun w => w.resolve a) w = .error (.trouble .cycle) w := by
    rw [reading_apply, World.resolve_of_circle h]
  constructor
  · unfold asSerial
    rw [bind_of_error hread]
  · unfold isSerial
    rw [bind_of_error hres]

/-! ## Pure aliases -/

/-- **The computed aliases are pure**: asked for a name, they leave the world as it is. -/
def Host.PureAliases (host : Host σ ι) : Prop :=
  ∀ token name w, (∃ v, host.computedAlias token name w = .ok v w) ∨
    ∃ fault, host.computedAlias token name w = .error fault w

/-- The chain of an argument ends at the name of a computed alias, and the alias reports a script
error. -/
def AliasRaises (host : Host σ ι) (w : World σ ι) (a : Argument) (error : ScriptError) : Prop :=
  ∃ e t token, w.Ends a e ∧ e.lexeme = some t ∧ w.registry.aliases.get? t = some token ∧
    host.computedAlias token t w = .error (.script error) w

theorem Host.PureAliases.world_eq (h : host.PureAliases) {t : String} {v : Value}
    (hv : Consulted host t w v w') : w' = w := by
  have answered : ∀ {token v}, host.computedAlias token t w = .ok v w' → w' = w := by
    intro token v answer
    rcases h token t w with ⟨v', hok⟩ | ⟨fault, herror⟩
    · rw [answer] at hok
      cases hok
      rfl
    · rw [answer] at herror
      cases herror
  cases hv with
  | computed _ answer _ => exact answered answer
  | declined _ answer => exact answered answer
  | stored => rfl

/-- An alias that answers does not fail. -/
theorem AliasRaises.getAlias {error : ScriptError} (h : AliasRaises host w a error)
    (he : w.Ends a e) {t : String} (ht : e.lexeme = some t) :
    ScriptM.getAlias host t w = .error (.script error) w := by
  obtain ⟨e', t', token, he', ht', known, fails⟩ := h
  obtain rfl := he.unique he'
  obtain rfl : t = t' := Option.some.inj (ht.symm.trans ht')
  unfold ScriptM.getAlias
  rw [get_bind, known]
  simp only
  rw [bind_of_error fails]

/-! ## The four ways to end -/

/-- **The number and the test end alike**, but where a computed alias reports a script error: then
neither of them answers. -/
theorem serial_cases (h : host.PureAliases) (w : World σ ι) (a : Argument) :
    ((∀ error, ¬ AliasRaises host w a error) ∧
      ((∃ v, asSerial host a w = .ok v w ∧ isSerial host a w = .ok true w) ∨
        (∃ error, asSerial host a w = .error (.script error) w ∧
          isSerial host a w = .ok false w) ∨
        ∃ t, asSerial host a w = .error (.trouble t) w ∧
          isSerial host a w = .error (.trouble t) w)) ∨
      ∃ error, (∀ error', AliasRaises host w a error' ↔ error' = error) ∧
        asSerial host a w = .error (.script error) w ∧
        isSerial host a w = .error (.script error) w := by
  by_cases hcircle : w.Acyclic a
  · obtain ⟨e, he⟩ := World.acyclic_iff_exists_ends.mp hcircle
    cases ht : e.lexeme with
    | none =>
      obtain ⟨hserial, htest⟩ := asSerial_of_absent host he ht
      refine .inl ⟨?_, .inr (.inl ⟨_, hserial, htest⟩)⟩
      rintro error ⟨e', t, token, he', ht', -⟩
      rw [he'.unique he, ht] at ht'
      cases ht'
    | some t =>
      rcases consulted_or_fails host t w with ⟨v, w', hv⟩ | ⟨token, fault, w', known, fails, hget⟩
      · obtain rfl := h.world_eq hv
        have quiet : ∀ error, ¬ AliasRaises host w' a error := by
          intro error herror
          have hboth := (getAlias_of_consulted hv).symm.trans (herror.getAlias he ht)
          cases hboth
        refine .inl ⟨quiet, ?_⟩
        by_cases hnull : v = .null
        · subst hnull
          obtain ⟨hserial, htest⟩ := asSerial_of_no_alias he ht hv
          rcases hread : Literal.toUInt (some t) (some e.site) with (error | trouble) | n
          · rw [hread] at hserial htest
            exact .inr (.inl ⟨error, hserial, htest⟩)
          · rw [hread] at hserial htest
            exact .inr (.inr ⟨trouble, hserial, htest⟩)
          · rw [hread] at hserial htest
            exact .inl ⟨_, hserial, htest⟩
        · exact .inl ⟨v, asSerial_of_alias he ht hv hnull⟩
      · obtain rfl : w' = w := by
          rcases h token t w with ⟨v, hok⟩ | ⟨fault', herror⟩
          · rw [fails] at hok
            cases hok
          · rw [fails] at herror
            cases herror
            rfl
        have hboth := asSerial_of_failing he ht hget
        cases fault with
        | script error =>
          refine .inr ⟨error, fun error' => ⟨?_, ?_⟩, hboth⟩
          · intro herror
            have hsame := (herror.getAlias he ht).symm.trans hget
            cases hsame
            rfl
          · rintro rfl
            exact ⟨e, t, token, he, ht, known, fails⟩
        | trouble trouble =>
          refine .inl ⟨?_, .inr (.inr ⟨trouble, hboth⟩)⟩
          intro error herror
          have hsame := (herror.getAlias he ht).symm.trans hget
          cases hsame
  · refine .inl ⟨?_, .inr (.inr ⟨_, asSerial_of_circle host hcircle⟩)⟩
    rintro error ⟨e, -, -, he, -⟩
    exact hcircle he.acyclic

/-! ## What is put into a list -/

namespace Bundled

theorem listEntry_of_false (h : isSerial host a w = .ok false w) :
    listEntry host a w = .ok a w := by
  unfold listEntry
  rw [bind_of_ok h]
  rfl

theorem listEntry_of_error {fault : Fault} (h : isSerial host a w = .error fault w) :
    listEntry host a w = .error fault w := by
  unfold listEntry
  rw [bind_of_error h]

/-- The number of an object becomes an entry of its own, if it can be written. -/
theorem listEntry_of_true (h : isSerial host a w = .ok true w) {v : Value}
    (hv : asSerial host a w = .ok v w) :
    (∃ entry, v.written = .ok entry ∧ ∃ b, listEntry host a w = .ok b w ∧ b.lexeme = some entry) ∨
      ∃ f, v.written = .error f ∧ listEntry host a w = .error (.trouble (.number f)) w := by
  unfold listEntry
  rw [bind_of_ok h]
  simp only [if_true]
  rw [bind_of_ok hv]
  cases v.written with
  | ok entry => exact .inl ⟨entry, rfl, _, rfl, rfl⟩
  | error f => exact .inr ⟨f, rfl, rfl⟩

/-- **A number that was found to be there is had**: what stops the putting of a value into a list
stops the test already, or else the number has too many digits to be written. -/
theorem listEntry_eq_error_iff (h : host.PureAliases) {fault : Fault} :
    listEntry host a w = .error fault w' ↔
      w' = w ∧ (isSerial host a w = .error fault w ∨
        ∃ v f, asSerial host a w = .ok v w ∧ v.written = .error f ∧
          fault = .trouble (.number f)) := by
  have stopped : ∀ {found : Fault}, isSerial host a w = .error found w →
      (∀ v, asSerial host a w ≠ .ok v w) →
      (listEntry host a w = .error fault w' ↔
        w' = w ∧ (isSerial host a w = .error fault w ∨
          ∃ v f, asSerial host a w = .ok v w ∧ v.written = .error f ∧
            fault = .trouble (.number f))) := by
    intro found htest hnone
    rw [listEntry_of_error htest, htest]
    constructor
    · intro hsame
      cases hsame
      exact ⟨rfl, .inl rfl⟩
    · rintro ⟨rfl, hsame | ⟨v, f, hok, -⟩⟩
      · cases hsame
        rfl
      · exact absurd hok (hnone v)
  rcases serial_cases h w a with
    ⟨-, ⟨v, hserial, htest⟩ | ⟨error, hserial, htest⟩ | ⟨t, hserial, htest⟩⟩ |
      ⟨error, -, hserial, htest⟩
  · rw [htest, hserial]
    rcases listEntry_of_true htest hserial with ⟨entry, hentry, b, hb, -⟩ | ⟨f, hf, hb⟩
    · rw [hb]
      constructor
      · intro hsame
        cases hsame
      · rintro ⟨-, hsame | ⟨v', f, hsame, hf, -⟩⟩
        · cases hsame
        · cases hsame
          rw [hentry] at hf
          cases hf
    · rw [hb]
      constructor
      · intro hsame
        cases hsame
        exact ⟨rfl, .inr ⟨v, f, rfl, hf, rfl⟩⟩
      · rintro ⟨rfl, hsame | ⟨v', f', hsame, hf', rfl⟩⟩
        · cases hsame
        · cases hsame
          rw [hf] at hf'
          cases hf'
          rfl
  · rw [listEntry_of_false htest, htest, hserial]
    constructor
    · intro hsame
      cases hsame
    · rintro ⟨-, hsame | ⟨v, f, hsame, -⟩⟩
      · cases hsame
      · cases hsame
  · exact stopped htest (by rw [hserial]; rintro v ⟨⟩)
  · exact stopped htest (by rw [hserial]; rintro v ⟨⟩)

end Bundled

/-! ## The test and the number -/

/-- **The test says what the number does, but for the errors of aliases.**  With pure aliases, in
every world and for every argument, whatever its chain and the aliases are:

* the test is passed exactly where the number is had;
* the test is not passed exactly where the number is refused by a script error, unless a computed
  alias reports that error;
* in every other way both fail alike; and where a computed alias reports a script error, the test
  fails with it as the number does;
* neither changes the world, and putting a value into a list never fails between the two. -/
theorem isSerial_agrees (h : host.PureAliases) (w : World σ ι) (a : Argument) :
    (isSerial host a w = .ok true w ↔ ∃ v, asSerial host a w = .ok v w) ∧
    (isSerial host a w = .ok false w ↔
      (∃ error, asSerial host a w = .error (.script error) w) ∧
        ∀ error, ¬ AliasRaises host w a error) ∧
    (∀ t, isSerial host a w = .error (.trouble t) w ↔ asSerial host a w = .error (.trouble t) w) ∧
    (∀ error, isSerial host a w = .error (.script error) w ↔ AliasRaises host w a error) ∧
    (∀ error, AliasRaises host w a error → asSerial host a w = .error (.script error) w) ∧
    ((∃ b, isSerial host a w = .ok b w) ∨ ∃ fault, isSerial host a w = .error fault w) ∧
    ((∃ v, asSerial host a w = .ok v w) ∨ ∃ fault, asSerial host a w = .error fault w) ∧
    ∀ fault w', Bundled.listEntry host a w = .error fault w' ↔
      w' = w ∧ (isSerial host a w = .error fault w ∨
        ∃ v f, asSerial host a w = .ok v w ∧ v.written = .error f ∧
          fault = .trouble (.number f)) := by
  have hentry : ∀ fault w', Bundled.listEntry host a w = .error fault w' ↔ _ :=
    fun fault w' => Bundled.listEntry_eq_error_iff h
  rcases serial_cases h w a with
    ⟨quiet, ⟨v, hserial, htest⟩ | ⟨error, hserial, htest⟩ | ⟨t, hserial, htest⟩⟩ |
      ⟨error, raises, hserial, htest⟩
  · simp only [hserial, htest] at hentry ⊢
    simp [quiet, hentry]
  · simp only [hserial, htest] at hentry ⊢
    simp [quiet, hentry]
  · simp only [hserial, htest] at hentry ⊢
    simp [quiet, hentry]
  · simp only [hserial, htest] at hentry ⊢
    simp [raises, hentry, eq_comm]

/-- A host whose computed alias knows the door, and is out of order for anything else. -/
def surlyHost : Host Unit Unit :=
  { quietHost with
    computedAlias _ name :=
      if name = "door" then return .int 5 else fail none (.reported "out of order") }

/-- The door and the key are computed aliases; there is a chest in the table. -/
def surlyWorld : World Unit Unit where
  host := ()
  registry := { aliases := (Table.empty.insert "door" ()).insert "key" () }
  aliases := Table.empty.insert "chest" (.int 9)

theorem surlyHost_pure : surlyHost.PureAliases := by
  intro token name w
  by_cases hname : name = "door"
  · exact .inl ⟨.int 5, by simp only [surlyHost, hname, if_true]; rfl⟩
  · exact .inr ⟨_, by simp only [surlyHost, hname, if_false]; rfl⟩

/-- The door passes the test, for it has a number; a word that is no alias does not. -/
theorem isSerial_agrees_door :
    surlyHost.PureAliases ∧
      isSerial surlyHost (wordOf 0 "door") surlyWorld = .ok true surlyWorld ∧
      isSerial surlyHost (wordOf 0 "x") surlyWorld = .ok false surlyWorld := by
  obtain ⟨hpassed, -⟩ := isSerial_agrees surlyHost_pure surlyWorld (wordOf 0 "door")
  obtain ⟨-, hfailed, -⟩ := isSerial_agrees surlyHost_pure surlyWorld (wordOf 0 "x")
  have hends : surlyWorld.Ends (wordOf 0 "x") (wordOf 0 "x") := by
    refine ⟨.refl, ?_⟩
    rintro b ⟨name, -, hlook, -⟩
    cases hlook
  refine ⟨surlyHost_pure, hpassed.mpr ⟨.int 5, rfl⟩, hfailed.mpr ⟨⟨_, rfl⟩, ?_⟩⟩
  rintro error ⟨e, t, token, he, ht, known, -⟩
  rw [← hends.unique he] at ht
  obtain rfl : "x" = t := Option.some.inj ht
  cases known

/-- The number of the key is refused by a script error, and the test does not say so: it fails with
the same error. -/
theorem not_false_of_surly :
    surlyHost.PureAliases ∧
      asSerial surlyHost (wordOf 0 "key") surlyWorld =
        .error (.at none (.reported "out of order")) surlyWorld ∧
      isSerial surlyHost (wordOf 0 "key") surlyWorld =
        .error (.at none (.reported "out of order")) surlyWorld ∧
      ¬ (isSerial surlyHost (wordOf 0 "key") surlyWorld = .ok false surlyWorld ↔
        ∃ error, asSerial surlyHost (wordOf 0 "key") surlyWorld =
          .error (.script error) surlyWorld) := by
  refine ⟨surlyHost_pure, rfl, rfl, ?_⟩
  intro hsame
  cases hsame.mpr ⟨_, rfl⟩

end Cadence
