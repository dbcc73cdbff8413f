/-
  TRACING — faults of readings can be traced, and so can those of what is built from readings.

  A fault is TRACED if the site of its script error, where it has one, is inside a statement.  There
  is one exception, and it is spelled out: a number that was put into a list for an object may be
  too large to be read as a signed one, and then the error stands at the token that was made for it
  (`ScriptError.Overgrown`).

  1. **Conversions and comparisons** — at a site inside a statement they have traced faults only.
  2. **Readings** — in a sound world, a sound argument is read with a traced fault, if with any.
     This is where the exception arises (`World.Sound.traces_asInt`).
  3. **The triple** (`Attains`) — an operation that begins in a sound world leaves one, whether it
     fails or not; its answer satisfies one condition and its fault another.  There is one rule for
     each way to build an operation, so that an operation is opened once and its parts are known by
     what they meet.  Mostly the condition on faults is that they are traced (`Finds`, `Locates`).
-/
import Cadence.Proofs.Locating.Sources

namespace Cadence

open ScriptM

/-! ## Traced faults -/

/-- A number that was put into a list for an object was too large to be read as a signed one. -/
def ScriptError.Overgrown (e : ScriptError) : Prop :=
  ∃ n line, 2 ^ 31 ≤ n ∧ n < 2 ^ 32 ∧ e.site = some (.root (mintedNode n line)) ∧
    e.cause = .notConvertible .int (some (intText n))

/-- The site of a script error, where there is one, is inside a statement. -/
def Fault.Traced : Fault → Prop
  | .trouble _ => True
  | .script e => (∀ s, e.site = some s → s.Inside) ∨ e.Overgrown

theorem Fault.traced_at {s : Site} (h : s.Inside) (cause : Cause) :
    (Fault.at (some s) cause).Traced := by
  refine .inl ?_
  rintro _ ⟨⟩
  exact h

theorem Fault.traced_none (cause : Cause) : (Fault.at none cause).Traced :=
  .inl fun _ hs => nomatch hs

/-- If a computation has a fault, then a traced one. -/
def Traces {α : Type} (x : Except Fault α) : Prop := ∀ fault, x = .error fault → fault.Traced

namespace Traces

variable {α β : Type}

theorem ok (a : α) : Traces (.ok a) := fun _ h => nomatch h

theorem error {fault : Fault} (h : fault.Traced) : Traces (.error fault : Except Fault α) := by
  rintro _ ⟨⟩
  exact h

theorem map {x : Except Fault α} (hx : Traces x) (f : α → β) : Traces (x.map f) := by
  cases x with
  | ok a => exact ok (f a)
  | error fault => exact error (hx fault rfl)

/-- A number that cannot be had in the wanted form is no script error. -/
theorem number (x : Except NumberFault α) :
    Traces (x.mapError fun f => Fault.trouble (.number f)) := by
  cases x with
  | ok a => exact ok a
  | error why => exact error trivial

end Traces

section

variable {α : Type} {s : Site}

theorem traces_orRefuse (hs : s.Inside) (reading : Reading) (token : Option String)
    (o : Option α) : Traces (Literal.orRefuse reading token (some s) o) := by
  cases o with
  | some a => exact .ok a
  | none => exact .error (Fault.traced_at hs _)

theorem traces_toWhole (hs : s.Inside) (w : Literal.Width) (reading : Reading)
    (token : Option String) : Traces (Literal.toWhole w reading token (some s)) := by
  unfold Literal.toWhole
  split
  · exact traces_orRefuse hs reading _ _
  · split
    · exact traces_orRefuse hs reading _ _
    · exact .error trivial

theorem traces_toBool (hs : s.Inside) (token : Option String) :
    Traces (Literal.toBool token (some s)) :=
  traces_orRefuse hs .bool token (token.bind Literal.truth?)

theorem traces_toDouble (hs : s.Inside) (token : Option String) :
    Traces (Literal.toDouble token (some s)) :=
  traces_orRefuse hs .double token (token.bind real?)

theorem traces_toInt (hs : s.Inside) (token : Option String) :
    Traces (Literal.toInt token (some s)) := traces_toWhole hs Literal.int32 .int token

theorem traces_toUInt (hs : s.Inside) (token : Option String) :
    Traces (Literal.toUInt token (some s)) := traces_toWhole hs Literal.uint32 .uint token

theorem traces_coerce (hs : s.Inside) (v : Value) (target : ValueType) :
    Traces (v.coerce target (some s)) := by
  have refused : ∀ source, Traces (.error (.at (some s) (.notComparable source target)) :
      Except Fault Value) := fun source => .error (Fault.traced_at hs _)
  unfold Value.coerce
  cases target with
  | null => exact refused v.type
  | bool =>
    cases v with
    | text t =>
      have read := (traces_toBool hs (some t)).map Value.bool
      exact read
    | int n => exact .ok _
    | real x => exact .ok _
    | null => exact refused .null
    | bool b => exact refused .bool
  | int =>
    cases v with
    | text t =>
      have read := (traces_toInt hs (some t)).map Value.int
      exact read
    | bool b => exact .ok _
    | real x =>
      have rounded := (Traces.number (Double.ofFloat x).round).map Value.int
      exact rounded
    | null => exact refused .null
    | int n => exact refused .int
  | real =>
    cases v with
    | text t =>
      have read := (traces_toDouble hs (some t)).map Value.real
      exact read
    | int n =>
      have converted := (Traces.number (Double.ofInt? n)).map Value.real
      exact converted
    | bool b => exact .ok _
    | null => exact refused .null
    | real x => exact refused .real
  | text =>
    cases v with
    | real x => exact .ok _
    | int n =>
      have written := (Traces.number (writeInt n)).map Value.text
      exact written
    | bool b => exact .ok _
    | null => exact refused .null
    | text t => exact refused .text

theorem traces_unify (hs : s.Inside) (l r : Value) : Traces (Value.unify l r (some s)) := by
  unfold Value.unify
  split
  · exact .ok _
  · split
    · exact .map (traces_coerce hs l _) _
    · exact .map (traces_coerce hs r _) _

theorem traces_answer (hs : s.Inside) (op : Kind) (l r : Value) :
    Traces (Value.answer op l r (some s)) := by
  unfold Value.answer
  split
  · split
    · exact .ok _
    · split
      · exact .ok _
      · split
        · exact .ok _
        · exact .error (Fault.traced_at hs _)
  · exact .error (Fault.traced_at hs _)

theorem traces_compare (hs : s.Inside) (op : Kind) (l r : Value) :
    Traces (Value.compare op l r (some s)) := by
  unfold Value.compare
  split
  · exact traces_answer hs op _ _
  · next fault hfault => exact .error (traces_unify hs l r fault hfault)

end

/-! ## Readings -/

section

variable {σ ι : Type} {w : World σ ι} {a : Argument}

/-- An argument without a text is inside a statement: what was made for a number has one. -/
theorem Argument.Sound.inside_of_absent (ha : a.Sound) (h : a.lexeme = none) : a.site.Inside := by
  cases ha with
  | inside token => exact token
  | minted fits token =>
    unfold Argument.lexeme at h
    rw [token] at h
    cases h

/-- A number that was made for an object has its digits as its text. -/
theorem lexeme_of_minted {n : Nat} {line : Int} {t : String}
    (h : a.site = .root (mintedNode n line)) (ht : a.lexeme = some t) : t = intText n := by
  unfold Argument.lexeme at ht
  rw [h] at ht
  exact (Option.some.inj ht).symm

/-- A reading finds the text of a sound argument, or a traced fault. -/
theorem World.Sound.text (h : w.Sound) (ha : a.Sound) (reading : Reading) :
    (∃ (e : Argument) (t : String), e.Sound ∧ e.lexeme = some t ∧
      w.resolveText reading a = .ok (t, e.site)) ∨
      ∃ fault : Fault, fault.Traced ∧ w.resolveText reading a = .error fault := by
  unfold World.resolveText
  cases hres : w.resolve a with
  | error fault =>
    refine .inr ⟨fault, ?_, rfl⟩
    unfold World.resolve at hres
    split at hres
    · cases hres
    · cases hres
      trivial
  | ok e =>
    have he := h.resolve ha hres
    cases ht : e.lexeme with
    | none =>
      exact .inr ⟨.at (some e.site) (.absent reading),
        Fault.traced_at (he.inside_of_absent ht) _, by simp only [ht]⟩
    | some t => exact .inl ⟨e, t, he, ht, by simp only [ht]⟩

/-- A reading has a traced fault if the reading of the last text has. -/
theorem World.Sound.traces_read {α : Type} {reading : Reading}
    {convert : Option String → Option Site → Except Fault α} (h : w.Sound) (ha : a.Sound)
    (hconvert : ∀ (e : Argument) (t : String), e.Sound → e.lexeme = some t →
      Traces (convert (some t) (some e.site))) : Traces (w.read reading convert a) := by
  unfold World.read
  rcases h.text ha reading with ⟨e, t, he, ht, htext⟩ | ⟨fault, hfault, htext⟩
  · rw [htext]
    exact hconvert e t he ht
  · rw [htext]
    exact .error hfault

theorem World.Sound.traces_asString (h : w.Sound) (ha : a.Sound) : Traces (w.asString a) := by
  unfold World.asString
  rcases h.text ha .string with ⟨e, t, -, -, htext⟩ | ⟨fault, hfault, htext⟩
  · rw [htext]
    exact .ok t
  · rw [htext]
    exact .error hfault

/-- **Only as a signed number, what was put into a list for an object may be misread.** -/
theorem World.Sound.traces_asInt (h : w.Sound) (ha : a.Sound) : Traces (w.asInt a) := by
  refine h.traces_read ha fun e t he ht => ?_
  cases he with
  | inside token => exact traces_toInt token _
  | @minted n line fits token =>
    obtain rfl := lexeme_of_minted token ht
    rcases toInt_intText fits (some e.site) with hok | ⟨hlarge, herror⟩
    · rw [hok]
      exact .ok _
    · rw [herror]
      exact .error (.inr ⟨n, line, hlarge, fits, congrArg some token, rfl⟩)

/-- As an unsigned number it is not misread. -/
theorem Argument.Sound.traces_unsigned (ha : a.Sound) {t : String} (ht : a.lexeme = some t) :
    Traces (Literal.toUInt (some t) (some a.site)) := by
  cases ha with
  | inside token => exact traces_toUInt token _
  | minted fits token =>
    obtain rfl := lexeme_of_minted token ht
    rw [toUInt_intText fits]
    exact .ok _

theorem World.Sound.traces_asUInt (h : w.Sound) (ha : a.Sound) : Traces (w.asUInt a) :=
  h.traces_read ha fun _ _ he ht => he.traces_unsigned ht

end

/-! ## The triple -/

section

variable {σ ι α β : Type} {Q : α → Prop} {R : β → Prop} {E : Fault → Prop} {x : ScriptM σ ι α}

/-- An operation has ended in a sound world, with an answer that satisfies one condition or with a
fault that satisfies another. -/
def Ended (Q : α → Prop) (E : Fault → Prop) : EStateM.Result Fault (World σ ι) α → Prop
  | .ok a w => w.Sound ∧ Q a
  | .error fault w => w.Sound ∧ E fault

/-- **The triple**: from every sound world an operation ends in a sound one, with an answer or a
fault as they should be. -/
def Attains (Q : α → Prop) (E : Fault → Prop) (x : ScriptM σ ι α) : Prop :=
  ∀ w, w.Sound → Ended Q E (x w)

/-- Its answer satisfies a condition, and its fault is traced. -/
abbrev Finds (Q : α → Prop) (x : ScriptM σ ι α) : Prop := Attains Q Fault.Traced x

/-- Its fault is traced; nothing is asked of the answer. -/
abbrev Locates (x : ScriptM σ ι α) : Prop := Finds (fun _ => True) x

/-- It never fails. -/
abbrev Settles (x : ScriptM σ ι α) : Prop := Attains (fun _ => True) (fun _ => False) x

/-- What an attempt answers. -/
def Attempted (Q : α → Prop) (E : Fault → Prop) : Except Fault α → Prop
  | .ok a => Q a
  | .error fault => E fault

theorem World.Sound.modifyScript {w : World σ ι} (h : w.Sound) (i : Nat)
    {f : Script ι → Script ι} (hf : ∀ s : Script ι, s.Sound → (f s).Sound) :
    (w.modifyScript i f).Sound := by
  refine ⟨fun j => ?_, h.lists, h.aliases⟩
  rw [World.script_modifyScript]
  split
  · exact hf _ (h.scripts j)
  · exact h.scripts j

theorem World.Sound.modifyActive {w : World σ ι} (h : w.Sound) {f : Script ι → Script ι}
    (hf : ∀ s : Script ι, s.Sound → (f s).Sound) : (w.modifyActive f).Sound := by
  unfold World.modifyActive
  split
  · exact h.modifyScript _ hf
  · exact h

namespace Attains

theorem after (hx : Attains Q E x) {w : World σ ι} (hw : w.Sound) : (x.after w).Sound := by
  have h := hx w hw
  cases he : x w with
  | ok a u =>
    rw [he] at h
    rw [after_of_ok he]
    exact h.1
  | error fault u =>
    rw [he] at h
    rw [after_of_error he]
    exact h.1

theorem error (hx : Attains Q E x) {w w' : World σ ι} {fault : Fault} (hw : w.Sound)
    (h : x w = .error fault w') : E fault := by
  have hend := hx w hw
  rw [h] at hend
  exact hend.2

/-- Less may be asked of the answer, and of the fault. -/
theorem mono (hx : Attains Q E x) {P : α → Prop} {F : Fault → Prop} (h : ∀ a, Q a → P a)
    (hE : ∀ fault, E fault → F fault) : Attains P F x := by
  intro w hw
  have hend := hx w hw
  cases he : x w with
  | ok a u =>
    rw [he] at hend
    exact ⟨hend.1, h a hend.2⟩
  | error fault u =>
    rw [he] at hend
    exact ⟨hend.1, hE fault hend.2⟩

/-- What never fails has any fault that is wanted. -/
theorem of_settles (hx : Settles x) : Attains (fun _ => True) E x :=
  hx.mono (fun _ => id) fun _ h => h.elim

theorem pure {a : α} (h : Q a) : Attains Q E (Pure.pure a : ScriptM σ ι α) := fun _ hw => ⟨hw, h⟩

/-- An answer of which nothing is asked. -/
theorem any (a : α) : Attains (fun _ => True) E (Pure.pure a : ScriptM σ ι α) := pure trivial

theorem throw {fault : Fault} (h : E fault) :
    Attains Q E (MonadExcept.throw fault : ScriptM σ ι α) := fun _ hw => ⟨hw, h⟩

/-- A refusal inside a statement. -/
theorem fail {s : Site} (hs : s.Inside) (cause : Cause) :
    Finds Q (ScriptM.fail (some s) cause : ScriptM σ ι α) := throw (Fault.traced_at hs cause)

/-- A refusal that leaves it to the statement to say where. -/
theorem fail_none (cause : Cause) : Finds Q (ScriptM.fail none cause : ScriptM σ ι α) :=
  throw (Fault.traced_none cause)

/-- A refusal at the first of some tokens, if there is one. -/
theorem fail_head {tokens : List Site} (hs : ∀ t ∈ tokens, t.Inside) (cause : Cause) :
    Finds Q (ScriptM.fail tokens.head? cause : ScriptM σ ι α) := by
  cases tokens with
  | nil => exact fail_none cause
  | cons t rest => exact fail (hs t List.mem_cons_self) cause

theorem bind {f : α → ScriptM σ ι β} (hx : Attains Q E x) (hf : ∀ a, Q a → Attains R E (f a)) :
    Attains R E (x >>= f) := by
  intro w hw
  have hend := hx w hw
  rw [bind_apply]
  cases he : x w with
  | ok a u =>
    rw [he] at hend
    exact hf a hend.2 u hend.1
  | error fault u =>
    rw [he] at hend
    exact hend

theorem ite {c : Prop} [Decidable c] {y : ScriptM σ ι α} (hx : c → Attains Q E x)
    (hy : ¬ c → Attains Q E y) : Attains Q E (if c then x else y) := by
  split
  · next h => exact hx h
  · next h => exact hy h

theorem get : Attains World.Sound E (MonadState.get : ScriptM σ ι (World σ ι)) :=
  fun _ hw => ⟨hw, hw⟩

theorem script (i : Nat) : Attains Script.Sound E (ScriptM.script i : ScriptM σ ι (Script ι)) :=
  fun _ hw => ⟨hw, hw.scripts i⟩

theorem modify {f : World σ ι → World σ ι} (h : ∀ w : World σ ι, w.Sound → (f w).Sound) :
    Attains (fun _ => True) E (modify f : ScriptM σ ι Unit) := fun w hw => ⟨h w hw, trivial⟩

theorem set {w : World σ ι} (h : w.Sound) :
    Attains (fun _ => True) E (MonadStateOf.set w : ScriptM σ ι Unit) := fun _ _ => ⟨h, trivial⟩

theorem modifyGet {f : World σ ι → α × World σ ι}
    (h : ∀ w : World σ ι, w.Sound → Q (f w).1 ∧ (f w).2.Sound) :
    Attains Q E (modifyGet f : ScriptM σ ι α) := fun w hw => ⟨(h w hw).2, (h w hw).1⟩

theorem modifyScript (i : Nat) {f : Script ι → Script ι}
    (h : ∀ s : Script ι, s.Sound → (f s).Sound) :
    Attains (fun _ => True) E (ScriptM.modifyScript i f : ScriptM σ ι Unit) :=
  fun _ hw => ⟨hw.modifyScript i h, trivial⟩

theorem lift {y : Except Fault α} (h : Traces y) (hq : ∀ a, y = .ok a → Q a) :
    Finds Q (ScriptM.lift y : ScriptM σ ι α) := by
  cases y with
  | ok a => exact pure (hq a rfl)
  | error fault => exact throw (h fault rfl)

theorem reading {f : World σ ι → Except Fault α} (h : ∀ w : World σ ι, w.Sound → Traces (f w))
    (hq : ∀ w a, w.Sound → f w = .ok a → Q a) : Finds Q (ScriptM.reading f) :=
  get.bind fun w hw => lift (h w hw) fun a ha => hq w a hw ha

/-- An operation whose fault is told in another way. -/
theorem mapFault {g : Fault → Fault} {F : Fault → Prop} (hx : Attains Q E x)
    (hg : ∀ fault : Fault, E fault → F (g fault)) : Attains Q F (ScriptM.mapFault g x) := by
  intro w hw
  have hend := hx w hw
  unfold ScriptM.mapFault
  cases he : x w with
  | ok a u =>
    rw [he] at hend
    exact hend
  | error fault u =>
    rw [he] at hend
    exact ⟨hend.1, hg fault hend.2⟩

/-- An attempt answers how it went. -/
theorem attempt {F : Fault → Prop} (hx : Attains Q E x) :
    Attains (Attempted Q E) F (ScriptM.attempt x) := by
  intro w hw
  have hend := hx w hw
  unfold ScriptM.attempt
  cases he : x w with
  | ok a u =>
    rw [he] at hend
    exact hend
  | error fault u =>
    rw [he] at hend
    exact hend

end Attains

end

end Cadence
