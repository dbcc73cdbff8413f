/-
  CIRCLES — where chains of loop variables end, and what is read from them.

  The variables of a script are those of its open loops over lists (`Progress.looped`).  A list holds
  arguments with any text, so the entry that one loop has come to may name the variable of another,
  and a loop further in may name the first one back.

  1. **Loops and circles** — a step from an argument is the doing of an open loop (`World.Loops`).  An
     argument CIRCLES if its chain comes to a variable that leads back to itself; no variable stands
     for its own name, so it takes two different variables at least (`World.Circles`), and an argument
     that does not circle has an end to its chain (`circles_iff`).
  2. **Readings at an end** — every reading answers or is refused by a script error there, but for
     texts that are numbers and cannot be had (`World.ReadsAt`).  The test for the number of an object
     gives an answer, unless such a text or a computed alias stops it (`SerialOutcome`).
  3. **Readings without an end** — all of them fail alike (`World.Astray`).
  4. **The headline** (`Progress.chains`), and two loops that lead back to each other
     (`circles_knotted`).
-/
import Cadence.Proofs.Arguments.Objects
import Cadence.Proofs.Locating.Reports
import Cadence.Proofs.Numbers.Escapes
import Cadence.Proofs.Running.Looping

namespace Cadence

open Literal Relation ScriptM

variable {σ ι : Type} {host : Host σ ι} {w : World σ ι} {a b c e : Argument}

/-! ## Loops and circles -/

/-- **A loop leads from one argument to another**: the text of the first is the variable of a loop
over a list that is open in its script, and in the frame of the loop it stands for the second. -/
def World.Loops (w : World σ ι) (a b : Argument) : Prop :=
  ∃ name t, ∃ f ∈ (w.script a.owner).frames.toList, a.lexeme = some name ∧ t.Iterates name ∧
    f.openedBy t = true ∧ f.vars.get? name = some b

/-- **The chain of an argument comes to a circle**, through two variables at least. -/
def World.Circles (w : World σ ι) (a : Argument) : Prop :=
  ∃ b c d, ReflTransGen w.Binds a b ∧ w.Binds b c ∧ w.Binds c d ∧ ReflTransGen w.Binds d b ∧
    b.lexeme ≠ c.lexeme

/-- What binds an argument is an open loop. -/
theorem World.Looped.loops (h : w.Looped) (hb : w.Binds a b) : w.Loops a b := by
  obtain ⟨name, hname, hlook, -⟩ := hb
  obtain ⟨vars, hvars, hget⟩ := Scope.exists_of_lookup hlook
  obtain ⟨f, hf, rfl⟩ := List.mem_map.mp hvars
  obtain ⟨t, hopen, ht⟩ := h a.owner f hf name b hget
  exact ⟨name, t, f, hf, hname, ht, hopen, hget⟩

/-- An argument circles, or its chain has an end. -/
theorem World.circles_iff : w.Circles a ↔ ¬ w.Acyclic a := by
  constructor
  · rintro ⟨b, c, d, hab, hbc, hcd, hdb, -⟩ hac
    exact hac b hab (.head' hbc (.head hcd hdb))
  · intro hno
    unfold Acyclic at hno
    push Not at hno
    obtain ⟨b, hab, hbb⟩ := hno
    obtain ⟨c, hbc, hcb⟩ := TransGen.head'_iff.mp hbb
    -- a text is never bound to itself, so the circle does not close with this step
    have hne : b.lexeme ≠ c.lexeme := by
      obtain ⟨name, hname, -, hother⟩ := hbc
      rw [hname]
      exact hother.symm
    rcases ReflTransGen.cases_head hcb with rfl | ⟨d, hcd, hdb⟩
    · exact absurd rfl hne
    · exact ⟨b, c, d, hab, hbc, hcd, hdb, hne⟩

/-! ## Readings at the end of a chain -/

/-- The text of an argument is a number that cannot be had. -/
def Argument.Unreadable (e : Argument) (f : NumberFault) : Prop :=
  ∃ t, e.lexeme = some t ∧ Cadence.Unreadable t f

/-- What comes of asking whether the last text of a chain is the number of an object: an answer,
unless the text is unreadable or the computed alias of that name fails. -/
inductive SerialOutcome (host : Host σ ι) (w : World σ ι) (e : Argument) {α : Type} :
    EStateM.Result Fault (World σ ι) α → Prop where
  /-- There is an answer. -/
  | answers (v : α) (w' : World σ ι) : SerialOutcome host w e (.ok v w')
  /-- The text is a number that cannot be had. -/
  | unreadable {f : NumberFault} (text : e.Unreadable f) (w' : World σ ι) :
    SerialOutcome host w e (.error (.trouble (.number f)) w')
  /-- The computed alias fails. -/
  | failing {t : String} {token : ι} {fault : Fault} {w' : World σ ι} (text : e.lexeme = some t)
      (known : w.registry.aliases.get? t = some token)
      (fails : host.computedAlias token t w = .error fault w') :
    SerialOutcome host w e (.error fault w')

/-- **What is read from an argument whose chain ends at another.** -/
structure World.ReadsAt (w : World σ ι) (host : Host σ ι) (a e : Argument) : Prop where
  /-- The chain ends there. -/
  ends : w.Ends a e
  /-- The end is found. -/
  resolve : w.resolve a = .ok e
  /-- A text, a real and a truth value are had or refused. -/
  string : Answers (some e.site) (w.asString a)
  double : Answers (some e.site) (w.asDouble a)
  bool : Answers (some e.site) (w.asBool a)
  /-- So are whole numbers, unless the last text is unreadable. -/
  int : StoppedBy e.Unreadable (some e.site) (w.asInt a)
  uint : StoppedBy e.Unreadable (some e.site) (w.asUInt a)
  ushort : StoppedBy e.Unreadable (some e.site) (w.asUShort a)
  /-- So is the number of an object, unless its alias fails. -/
  serial : (∃ cause w', asSerial host a w = .error (.at (some e.site) cause) w') ∨
    SerialOutcome host w e (asSerial host a w)
  /-- Whether there is such a number is answered. -/
  isSerial : SerialOutcome host w e (isSerial host a w)

theorem World.Ends.answers_read (h : w.Ends a e) {α : Type} (reading : Reading)
    {convert : Option String → Option Site → Except Fault α}
    (hconvert : ∀ token site, Answers site (convert token site)) :
    Answers (some e.site) (w.read reading convert a) := by
  cases ht : e.lexeme with
  | none =>
    rw [read_of_absent h ht]
    exact .inr ⟨_, rfl⟩
  | some t =>
    rw [read_of_ends h ht]
    exact hconvert _ _

theorem World.Ends.answers_asString (h : w.Ends a e) : Answers (some e.site) (w.asString a) := by
  unfold asString
  cases ht : e.lexeme with
  | none =>
    rw [resolveText_of_absent h ht]
    exact .inr ⟨_, rfl⟩
  | some t =>
    rw [resolveText_of_ends h ht]
    exact .inl ⟨t, rfl⟩

theorem World.Ends.stoppedBy_read (h : w.Ends a e) (reading : Reading) (width : Width) :
    StoppedBy e.Unreadable (some e.site) (w.read reading (toWhole width reading) a) := by
  cases ht : e.lexeme with
  | none =>
    rw [read_of_absent h ht]
    refine .of_answers (.inr ⟨_, rfl⟩) ?_
    rintro f ⟨t, ht', -⟩
    rw [ht] at ht'
    cases ht'
  | some t =>
    rw [read_of_ends h ht]
    refine (stoppedBy_toWhole width reading (some t) (some e.site)).congr fun f => ?_
    rw [Argument.Unreadable, ht]

/-- The number of an object and the test for it. -/
theorem World.Ends.serial (host : Host σ ι) (h : w.Ends a e) :
    ((∃ cause w', asSerial host a w = .error (.at (some e.site) cause) w') ∨
      SerialOutcome host w e (asSerial host a w)) ∧
    SerialOutcome host w e (isSerial host a w) := by
  cases ht : e.lexeme with
  | none =>
    obtain ⟨hserial, htest⟩ := asSerial_of_absent host h ht
    rw [hserial, htest]
    exact ⟨.inl ⟨_, _, rfl⟩, .answers _ _⟩
  | some t =>
    rcases consulted_or_fails host t w with ⟨v, w', hv⟩ | ⟨token, fault, w', known, fails, hget⟩
    · by_cases hnull : v = .null
      · subst hnull
        obtain ⟨hserial, htest⟩ := asSerial_of_no_alias h ht hv
        rw [hserial, htest]
        -- what is no alias is read as an unsigned number, and the test takes the refusal for a no
        have hread := stoppedBy_toWhole uint32 .uint (some t) (some e.site)
        by_cases hstop : ∃ f, Cadence.Unreadable t f
        · obtain ⟨f, hf⟩ := hstop
          have htrouble : toUInt (some t) (some e.site) = _ := hread.stops f ⟨t, rfl, hf⟩
          rw [htrouble]
          exact ⟨.inr (.unreadable ⟨t, ht, hf⟩ w'), .unreadable ⟨t, ht, hf⟩ w'⟩
        · have hanswers : Answers (some e.site) (toUInt (some t) (some e.site)) := by
            refine hread.answers ?_
            rintro f ⟨_, ⟨⟩, hf⟩
            exact hstop ⟨f, hf⟩
          rcases hanswers with ⟨n, hn⟩ | ⟨cause, hcause⟩
          · rw [hn]
            exact ⟨.inr (.answers _ _), .answers _ _⟩
          · rw [hcause]
            exact ⟨.inl ⟨cause, w', rfl⟩, .answers _ _⟩
      · obtain ⟨hserial, htest⟩ := asSerial_of_alias h ht hv hnull
        rw [hserial, htest]
        exact ⟨.inr (.answers _ _), .answers _ _⟩
    · obtain ⟨hserial, htest⟩ := asSerial_of_failing h ht hget
      rw [hserial, htest]
      exact ⟨.inr (.failing ht known fails), .failing ht known fails⟩

theorem World.Ends.readsAt (host : Host σ ι) (h : w.Ends a e) : w.ReadsAt host a e where
  ends := h
  resolve := resolve_eq_ok_iff.mpr h
  string := h.answers_asString
  double := h.answers_read .double answers_toDouble
  bool := h.answers_read .bool answers_toBool
  int := h.stoppedBy_read .int int32
  uint := h.stoppedBy_read .uint uint32
  ushort := h.stoppedBy_read .ushort uint16
  serial := (h.serial host).1
  isSerial := (h.serial host).2

/-! ## Readings without an end -/

/-- **Nothing is read from an argument**: every reading, and the test for the number of an object,
fails by the trouble of a circle. -/
structure World.Astray (w : World σ ι) (host : Host σ ι) (a : Argument) : Prop where
  string : w.asString a = .error (.trouble .cycle)
  double : w.asDouble a = .error (.trouble .cycle)
  bool : w.asBool a = .error (.trouble .cycle)
  int : w.asInt a = .error (.trouble .cycle)
  uint : w.asUInt a = .error (.trouble .cycle)
  ushort : w.asUShort a = .error (.trouble .cycle)
  serial : asSerial host a w = .error (.trouble .cycle) w
  isSerial : isSerial host a w = .error (.trouble .cycle) w

theorem World.Circles.astray (host : Host σ ι) (h : w.Circles a) : w.Astray host a := by
  have hcircle := circles_iff.mp h
  have hread : ∀ {α : Type} (reading : Reading)
      (convert : Option String → Option Site → Except Fault α),
      w.read reading convert a = .error (.trouble .cycle) := by
    intro α reading convert
    unfold read
    rw [resolveText_of_circle hcircle]
  obtain ⟨hserial, htest⟩ := asSerial_of_circle host hcircle
  refine ⟨?_, hread _ _, hread _ _, hread _ _, hread _ _, hread _ _, hserial, htest⟩
  unfold asString
  rw [resolveText_of_circle hcircle]
  rfl

/-! ## The chains of a run -/

/-- **Chains of loop variables end, unless two loops lead back to each other.**  In every world that
ticks and operations lead to from one without scripts, whatever its lists hold and however its loops
are nested, and for every argument:

* every step of the chain is the doing of a loop over a list that is open: the text is its variable,
  and its frame has the next argument for it;
* loops that all have the same variable make no circle;
* if the chain comes to no circle it has an end.  Every reading answers there or is refused by a
  script error at that place, and the test for the number of an object says yes or no; only numbers
  that cannot be had and computed aliases that fail make an exception;
* if it comes to a circle, which takes two variables, every reading and the test fail, and not by a
  script error. -/
theorem Progress.chains {w₀ w : World σ ι} (h₀ : w₀.scripts = #[]) (h : Progress w₀ w)
    (host : Host σ ι) (a : Argument) :
    (∀ b c, ReflTransGen w.Binds a b → w.Binds b c → w.Loops b c) ∧
    (∀ name, (∀ b c, w.Loops b c → b.lexeme = some name) → ¬ w.Circles a) ∧
    (¬ w.Circles a → ∃ e, w.ReadsAt host a e) ∧
    (w.Circles a → w.Astray host a) := by
  have hloops : ∀ b c, w.Binds b c → w.Loops b c := fun b c hbc => (h.looped h₀).loops hbc
  refine ⟨?_, ?_, ?_, ?_⟩
  · intro b c _ hbc
    exact hloops b c hbc
  · rintro name hname ⟨b, c, d, -, hbc, hcd, -, hne⟩
    exact hne ((hname b c (hloops b c hbc)).trans (hname c d (hloops c d hcd)).symm)
  · intro hno
    rw [World.circles_iff, not_not] at hno
    obtain ⟨e, he⟩ := World.acyclic_iff_exists_ends.mp hno
    exact ⟨e, he.readsAt host⟩
  · intro hcircle
    exact hcircle.astray host

/-! ## Two loops that lead back to each other -/

theorem quietHost_restrained : Restrained quietHost :=
  .intro (fun _ _ _ _ _ w => .refl w) (fun _ _ _ _ w => .refl w) (fun _ _ w => .refl w)
    (fun _ _ w => .refl w) (fun _ _ w => .refl w) (fun _ w => .refl w) fun _ w => .refl w

/-- The header of a loop over a list. -/
def eachLine (line : Int) (name list : String) : Node where
  kind := .statement
  line
  children := [{ kind := .forEachStart, line
                 children := [{ kind := .operand, lexeme := some name, line },
                   { kind := .operand, lexeme := some list, line }] }]

/-- The end of a loop. -/
def endLine (line : Int) : Node where
  kind := .statement
  line
  children := [{ kind := .forEnd, line }]

/-- Two lists with one entry each, and two loops over them: the entry of the one is the variable of
the other. -/
def knotRoot : Node where
  kind := .script
  children :=
    [hoardLine 1 "createlist" ["l"], hoardLine 2 "pushlist" ["l", "w"],
      hoardLine 3 "createlist" ["m"], hoardLine 4 "pushlist" ["m", "v"],
      eachLine 5 "v" "l", eachLine 6 "w" "m", hoardLine 7 "sysmsg" ["v"], endLine 8, endLine 9]

/-- A world that knows the commands of this script. -/
def knotWorld : World Unit Unit where
  host := ()
  registry :=
    { commands := ((Table.empty.insert "createlist" (.bundled .createList)).insert "pushlist"
        (.bundled .pushList)).insert "sysmsg" (.bundled .sysmsg) }

/-- The script is loaded, and has been run for some statements. -/
def knotted (m : Nat) : World Unit Unit :=
  ticked ((Control.perform (.create "knot" knotRoot)).after knotWorld) m

theorem progress_knotted (m : Nat) : Progress knotWorld (knotted m) := by
  induction m with
  | zero => exact .control (.create "knot" knotRoot) (.refl _)
  | succ m ih => exact .tick 0 quietHost_restrained ih

/-- In the outer loop the chain of its variable ends at the entry. -/
theorem chains_knotted_outer :
    Progress knotWorld (knotted 5) ∧ ¬ (knotted 5).Circles (wordOf 0 "v") ∧
      ∃ e, (knotted 5).ReadsAt quietHost (wordOf 0 "v") e ∧ e.lexeme = some "w" := by
  have hfollow : ((knotted 5).follow? 2 (wordOf 0 "v")).map Argument.lexeme = some (some "w") := by
    decide +kernel
  obtain ⟨e, he, ht⟩ := Option.map_eq_some_iff.mp hfollow
  have hends := World.ends_of_follow? he
  have hno : ¬ (knotted 5).Circles (wordOf 0 "v") := fun hc =>
    World.circles_iff.mp hc hends.acyclic
  obtain ⟨-, -, hreads, -⟩ :=
    Progress.chains rfl (progress_knotted 5) quietHost (wordOf 0 "v")
  obtain ⟨e', he'⟩ := hreads hno
  obtain rfl := he'.ends.unique hends
  exact ⟨progress_knotted 5, hno, e', he', ht⟩

/-- **In the inner loop the two variables stand for each other**: the chain of either has no end, and
neither the test for the number of an object nor the text says so by a script error. -/
theorem circles_knotted :
    Progress knotWorld (knotted 6) ∧ (knotted 6).Circles (wordOf 0 "v") ∧
      isSerial quietHost (wordOf 0 "v") (knotted 6) = .error (.trouble .cycle) (knotted 6) ∧
      (¬ ∃ b w', isSerial quietHost (wordOf 0 "v") (knotted 6) = .ok b w') ∧
      ¬ ∃ site, Answers site ((knotted 6).asString (wordOf 0 "v")) := by
  have hlost : ((knotted 6).follow? ((knotted 6).bindingCount + 1) (wordOf 0 "v")).isNone = true := by
    decide +kernel
  have hcircle : (knotted 6).Circles (wordOf 0 "v") := by
    rw [World.circles_iff]
    intro hac
    exact World.follow?_ne_none hac (Option.isNone_iff_eq_none.mp hlost)
  have hastray := hcircle.astray quietHost
  refine ⟨progress_knotted 6, hcircle, hastray.isSerial, ?_, ?_⟩
  · rintro ⟨b, w', hok⟩
    rw [hastray.isSerial] at hok
    cases hok
  · rintro ⟨site, hanswers⟩
    exact hanswers.not_trouble _ hastray.string

end Cadence
