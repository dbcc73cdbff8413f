/-
  ESCAPES — exactly where a conversion or a comparison ends neither by a value nor by a script error.

  What writes no value is refused by a script error, and so is an operand that has no value of the
  other operand's type.  Some numbers are there and cannot be had all the same, and the fault of the
  number then comes through as a trouble.

  1. **What stops a result** — a result is as it should be, or stopped by certain number faults and
     by nothing else (`StoppedBy`).
  2. **Tokens** — a text is a decimal number by the grammar, and the reader of digits does not take
     it: it has separators around it, or too many digits (`Unreadable`).
  3. **Operands** — a value brought to the type of the other (`Uncoerced`), then two of them
     (`Unmatched`): of the pairs of types, four have a fault.
  4. **The headline** (`answers_or_stopped`).
-/
import Cadence.Proofs.Numbers.Range
import Cadence.Proofs.Numbers.Spelling
import Cadence.Value.Compare

namespace Cadence

open Literal Text

/-! ## What stops a result -/

/-- A result is as it should be: a value, or a script error at the site. -/
def Answers {α : Type} (site : Option Site) (x : Except Fault α) : Prop :=
  (∃ a, x = .ok a) ∨ ∃ cause, x = .error (.at site cause)

/-- A result is stopped by certain number faults, and by nothing else: with such a fault it is
neither a value nor a script error, and without one it is as it should be. -/
structure StoppedBy {α : Type} (P : NumberFault → Prop) (site : Option Site) (x : Except Fault α) :
    Prop where
  /-- Such a fault stops the result. -/
  stops : ∀ f, P f → x = .error (.trouble (.number f))
  /-- Without such a fault, nothing does. -/
  answers : (∀ f, ¬ P f) → Answers site x

section

variable {α β : Type} {P Q : NumberFault → Prop} {site : Option Site} {x : Except Fault α}

theorem Answers.map (h : Answers site x) (g : α → β) : Answers site (x.map g) := by
  rcases h with ⟨a, rfl⟩ | ⟨cause, rfl⟩
  · exact .inl ⟨g a, rfl⟩
  · exact .inr ⟨cause, rfl⟩

theorem Answers.not_trouble (h : Answers site x) (t : Trouble) : x ≠ .error (.trouble t) := by
  rcases h with ⟨a, rfl⟩ | ⟨cause, rfl⟩
  · rintro ⟨⟩
  · rintro ⟨⟩

theorem StoppedBy.of_answers (h : Answers site x) (hP : ∀ f, ¬ P f) : StoppedBy P site x where
  stops f hf := absurd hf (hP f)
  answers _ := h

theorem StoppedBy.map (h : StoppedBy P site x) (g : α → β) : StoppedBy P site (x.map g) where
  stops f hf := by rw [h.stops f hf]; rfl
  answers hP := (h.answers hP).map g

theorem StoppedBy.congr (h : StoppedBy P site x) (hPQ : ∀ f, P f ↔ Q f) : StoppedBy Q site x where
  stops f hf := h.stops f ((hPQ f).mpr hf)
  answers hQ := h.answers fun f hf => hQ f ((hPQ f).mp hf)

theorem answers_orRefuse (reading : Reading) (token : Option String) (site : Option Site)
    (v : Option α) : Answers site (orRefuse reading token site v) := by
  cases v with
  | none => exact .inr ⟨_, rfl⟩
  | some a => exact .inl ⟨a, rfl⟩

end

/-! ## Tokens -/

/-- A text that is a decimal number and that the reader of digits does not take, with its fault.  A
separator in front is met before the digits are counted, one behind after it. -/
inductive Unreadable (t : String) : NumberFault → Prop where
  /-- A separator stands in front of the number. -/
  | before {negative : Bool} {ds : List Char} (form : Decimal t.toList negative ds)
      {c : Char} (front : c ∈ t.toList.takeWhile isBlank) (separator : isSeparator c = true) :
    Unreadable t (.surrounded (String.ofList ((quoted t).toList.take 200)))
  /-- The number has too many digits. -/
  | long {negative : Bool} {ds : List Char} (form : Decimal t.toList negative ds)
      (plain : ∀ c ∈ t.toList.takeWhile isBlank, isSeparator c = false)
      (many : digitLimit < ds.length) :
    Unreadable t (.tooLong ds.length)
  /-- A separator stands behind the number. -/
  | behind {negative : Bool} {ds : List Char} (form : Decimal t.toList negative ds)
      (few : ds.length ≤ digitLimit) {c : Char} (within : c ∈ t.toList)
      (separator : isSeparator c = true) :
    Unreadable t (.surrounded (String.ofList ((quoted t).toList.take 200)))

theorem isBlank_of_isSeparator {c : Char} (h : isSeparator c = true) : isBlank c = true := by
  simp only [isSeparator, Bool.and_eq_true, decide_eq_true_eq] at h
  refine List.any_eq_true.mpr ⟨(0x1C, 0x20), by decide, ?_⟩
  simp only [Bool.and_eq_true, decide_eq_true_eq]
  omega

/-- Digits that stand in a text are read, unless the text is unreadable. -/
theorem readWhole_eq_error_iff {t : String} {negative : Bool} {ds : List Char}
    (form : Decimal t.toList negative ds) {f : NumberFault} :
    readWhole t negative ds = .error f ↔ Unreadable t f := by
  constructor
  · intro h
    unfold readWhole at h
    dsimp only at h
    split at h
    · next hfront =>
      obtain ⟨c, hc, hsep⟩ := List.any_eq_true.mp hfront
      obtain rfl := Except.error.inj h
      exact .before form hc hsep
    · next hfront =>
      have hplain : ∀ c ∈ t.toList.takeWhile isBlank, isSeparator c = false :=
        fun c hc => Bool.eq_false_of_not_eq_true (List.any_eq_false.mp (Bool.eq_false_of_not_eq_true hfront) c hc)
      split at h
      · next hlong =>
        obtain rfl := Except.error.inj h
        exact .long form hplain hlong
      · next hshort =>
        split at h
        · next haround =>
          obtain ⟨c, hc, hsep⟩ := List.any_eq_true.mp haround
          obtain rfl := Except.error.inj h
          exact .behind form (Nat.not_lt.mp hshort) (List.mem_filter.mp hc).1 hsep
        · cases h
  · intro h
    cases h with
    | before form' front separator =>
      exact if_pos (List.any_eq_true.mpr ⟨_, front, separator⟩)
    | @long negative' ds' form' plain many =>
      obtain ⟨-, rfl⟩ := form.unique form'
      have hfront : ¬ (t.toList.takeWhile isBlank).any isSeparator = true := by
        simpa using plain
      unfold readWhole
      dsimp only
      rw [if_neg hfront, if_pos many]
    | @behind negative' ds' form' few c within separator =>
      obtain ⟨-, rfl⟩ := form.unique form'
      have haround : (t.toList.filter isBlank).any isSeparator = true :=
        List.any_eq_true.mpr
          ⟨c, List.mem_filter.mpr ⟨within, isBlank_of_isSeparator separator⟩, separator⟩
      unfold readWhole
      dsimp only
      rw [if_neg (Nat.not_lt.mpr few), if_pos haround, ite_self]

theorem Unreadable.exists_decimal {t : String} {f : NumberFault} (h : Unreadable t f) :
    ∃ negative ds, Decimal t.toList negative ds := by
  cases h with
  | before form => exact ⟨_, _, form⟩
  | long form => exact ⟨_, _, form⟩
  | behind form => exact ⟨_, _, form⟩

/-- **A reading of a whole number is stopped by an unreadable text only.** -/
theorem stoppedBy_toWhole (w : Width) (reading : Reading) (token : Option String)
    (site : Option Site) :
    StoppedBy (fun f => ∃ t, token = some t ∧ Unreadable t f) site
      (toWhole w reading token site) := by
  rcases token with _ | t
  · refine .of_answers (.inr ⟨_, rfl⟩) ?_
    rintro f ⟨t, ⟨⟩, -⟩
  rcases hhex : hexDigits? t with _ | rest
  · rcases hform : wholeForm? t with _ | ⟨negative, ds⟩
    · have hwhole : whole? w t = .ok none := by rw [whole?, hhex, hform]
      refine .of_answers ?_ ?_
      · rw [toWhole, hwhole]
        exact answers_orRefuse ..
      · rintro f ⟨_, ⟨⟩, hf⟩
        obtain ⟨negative, ds, form⟩ := hf.exists_decimal
        rw [wholeForm?_eq_some_iff.mpr form] at hform
        cases hform
    · have form := wholeForm?_eq_some_iff.mp hform
      have hwhole : whole? w t = (readWhole t negative ds).map w.check? := by
        rw [whole?, hhex, hform]
      constructor
      · rintro f ⟨_, ⟨⟩, hf⟩
        rw [toWhole, hwhole, (readWhole_eq_error_iff form).mpr hf]
        rfl
      · intro hno
        rw [toWhole, hwhole]
        rcases hread : readWhole t negative ds with f | n
        · exact absurd ⟨t, rfl, (readWhole_eq_error_iff form).mp hread⟩ (hno f)
        · exact answers_orRefuse ..
  · have hwhole : whole? w t = .ok ((hexForm? rest).bind w.ofBits?) := by rw [whole?, hhex]
    refine .of_answers ?_ ?_
    · rw [toWhole, hwhole]
      exact answers_orRefuse ..
    · rintro f ⟨_, ⟨⟩, hf⟩
      obtain ⟨negative, ds, form⟩ := hf.exists_decimal
      exact form.not_hexadecimal rest (hexDigits?_eq_some_iff.mp hhex)

theorem answers_toDouble (token : Option String) (site : Option Site) :
    Answers site (toDouble token site) := answers_orRefuse ..

theorem answers_toBool (token : Option String) (site : Option Site) :
    Answers site (toBool token site) := answers_orRefuse ..

/-! ## Operands -/

namespace Value

/-- An operand that has no value of another type, with the fault. -/
inductive Uncoerced : Value → ValueType → NumberFault → Prop where
  /-- A whole number beyond the reals. -/
  | beyond {n : Int} (far : Double.firstBeyond ≤ n.natAbs) : Uncoerced (.int n) .real .tooLarge
  /-- A text that is read as a whole number. -/
  | unreadable {t : String} {f : NumberFault} (text : Unreadable t f) : Uncoerced (.text t) .int f
  /-- A whole number that is written as a text. -/
  | unwritable {n : Int} (many : ¬ Writable n) : Uncoerced (.int n) .text .unwritable
  /-- A real that is no number, or an infinite one, taken for a whole number. -/
  | unrounded {x : Float} {f : NumberFault} (special : (Double.ofFloat x).round = .error f) :
    Uncoerced (.real x) .int f

/-- A number that may be faulty, as a value. -/
theorem stoppedBy_mapError {α : Type} {P : NumberFault → Prop} {site : Option Site}
    {x : Except NumberFault α} (h : ∀ f, x = .error f ↔ P f) (g : α → Value) :
    StoppedBy P site ((x.mapError fun f => Fault.trouble (.number f)).map g) where
  stops f hf := by rw [(h f).mpr hf]; rfl
  answers hno := by
    cases x with
    | ok a => exact .inl ⟨g a, rfl⟩
    | error f => exact absurd ((h f).mp rfl) (hno f)

theorem writeInt_eq_error_iff {n : Int} {f : NumberFault} :
    writeInt n = .error f ↔ ¬ Writable n ∧ f = .unwritable := by
  by_cases h : Writable n
  · simp only [writeInt_of_writable h, h, not_true, false_and, reduceCtorEq]
  · simp only [writeInt_of_not_writable h, h, not_false_eq_true, true_and, Except.error.injEq, eq_comm]

theorem stoppedBy_coerce (value : Value) (target : ValueType) (site : Option Site) :
    StoppedBy (Uncoerced value target) site (value.coerce target site) := by
  have refuse : Answers site
      (.error (.at site (.notComparable value.type target)) : Except Fault Value) := .inr ⟨_, rfl⟩
  unfold coerce
  cases target with
  | null => exact .of_answers refuse (by rintro f ⟨⟩)
  | bool =>
    refine .of_answers ?_ (by rintro f ⟨⟩)
    cases value with
    | text s =>
      exact (answers_toBool ..).map _
    | int n => exact .inl ⟨_, rfl⟩
    | real x => exact .inl ⟨_, rfl⟩
    | null => exact refuse
    | bool b => exact refuse
  | real =>
    cases value with
    | text s =>
      exact .of_answers ((answers_toDouble ..).map _) (by rintro f ⟨⟩)
    | int n =>
      refine stoppedBy_mapError (fun f => ?_) _
      rw [Double.ofInt?_eq_error_iff]
      constructor
      · rintro ⟨far, rfl⟩
        exact .beyond far
      · intro h
        cases h with
        | beyond far => exact ⟨far, rfl⟩
    | bool b => exact .of_answers (.inl ⟨_, rfl⟩) (by rintro f ⟨⟩)
    | null => exact .of_answers refuse (by rintro f ⟨⟩)
    | real x => exact .of_answers refuse (by rintro f ⟨⟩)
  | int =>
    cases value with
    | text s =>
      refine ((stoppedBy_toWhole int32 .int (some s) site).congr ?_).map _
      intro f
      constructor
      · rintro ⟨_, ⟨⟩, h⟩
        exact .unreadable h
      · intro h
        cases h with
        | unreadable h => exact ⟨s, rfl, h⟩
    | real x =>
      refine stoppedBy_mapError (fun f => ?_) _
      constructor
      · exact .unrounded
      · intro h
        cases h with
        | unrounded special => exact special
    | bool b => exact .of_answers (.inl ⟨_, rfl⟩) (by rintro f ⟨⟩)
    | null => exact .of_answers refuse (by rintro f ⟨⟩)
    | int n => exact .of_answers refuse (by rintro f ⟨⟩)
  | text =>
    cases value with
    | int n =>
      refine stoppedBy_mapError (fun f => ?_) _
      rw [writeInt_eq_error_iff]
      constructor
      · rintro ⟨many, rfl⟩
        exact .unwritable many
      · intro h
        cases h with
        | unwritable many => exact ⟨many, rfl⟩
    | real x => exact .of_answers (.inl ⟨_, rfl⟩) (by rintro f ⟨⟩)
    | bool b => exact .of_answers (.inl ⟨_, rfl⟩) (by rintro f ⟨⟩)
    | null => exact .of_answers refuse (by rintro f ⟨⟩)
    | text s => exact .of_answers refuse (by rintro f ⟨⟩)

/-- Two operands that are not brought to one type, with the fault. -/
inductive Unmatched : Value → Value → NumberFault → Prop where
  /-- A whole number beyond the reals, against a real. -/
  | left {n : Int} {x : Float} (far : Double.firstBeyond ≤ n.natAbs) :
    Unmatched (.int n) (.real x) .tooLarge
  /-- A real, against a whole number beyond the reals. -/
  | right {x : Float} {n : Int} (far : Double.firstBeyond ≤ n.natAbs) :
    Unmatched (.real x) (.int n) .tooLarge
  /-- A whole number, against a text that is none for the reader. -/
  | unreadable {n : Int} {t : String} {f : NumberFault} (text : Unreadable t f) :
    Unmatched (.int n) (.text t) f
  /-- A text, against a whole number with too many digits to be written. -/
  | unwritable {t : String} {n : Int} (many : ¬ Writable n) :
    Unmatched (.text t) (.int n) .unwritable

theorem stoppedBy_unify (lhs rhs : Value) (site : Option Site) :
    StoppedBy (Unmatched lhs rhs) site (unify lhs rhs site) := by
  unfold unify
  by_cases htype : lhs.type = rhs.type
  · rw [if_pos htype]
    refine .of_answers (.inl ⟨_, rfl⟩) ?_
    intro f hf
    cases hf with
    | left | right | unreadable | unwritable => cases htype
  · rw [if_neg htype]
    by_cases hright : rhs.type = .real ∨ rhs.type = .bool
    · rw [if_pos hright]
      refine ((stoppedBy_coerce lhs rhs.type site).congr fun f => ?_).map _
      constructor
      · intro h
        cases rhs with
        | real x =>
          cases h with
          | beyond far => exact .left far
        | bool b => cases h
        | _ => rcases hright with hright | hright <;> cases hright
      · intro h
        cases h with
        | left far => exact .beyond far
        | right | unreadable | unwritable => rcases hright with hright | hright <;> cases hright
    · rw [if_neg hright]
      refine ((stoppedBy_coerce rhs lhs.type site).congr fun f => ?_).map _
      constructor
      · intro h
        cases lhs with
        | real x =>
          cases h with
          | beyond far => exact .right far
        | int n =>
          cases h with
          | unreadable text => exact .unreadable text
          | unrounded => exact absurd (.inl rfl) hright
        | text t =>
          cases h with
          | unwritable many => exact .unwritable many
        | null => cases h
        | bool b => cases h
      · intro h
        cases h with
        | left => exact absurd (.inl rfl) hright
        | right far => exact .beyond far
        | unreadable text => exact .unreadable text
        | unwritable many => exact .unwritable many

theorem answers_answer (op : Kind) (lhs rhs : Value) (site : Option Site) :
    Answers site (answer op lhs rhs site) := by
  unfold answer
  split
  · split
    · exact .inl ⟨_, rfl⟩
    · split
      · exact .inl ⟨_, rfl⟩
      · split
        · exact .inl ⟨_, rfl⟩
        · exact .inr ⟨_, rfl⟩
  · exact .inr ⟨_, rfl⟩

/-- **A comparison is stopped by operands only that are not brought to one type.** -/
theorem stoppedBy_compare (op : Kind) (lhs rhs : Value) (site : Option Site) :
    StoppedBy (Unmatched lhs rhs) site (compare op lhs rhs site) where
  stops f hf := by rw [compare, (stoppedBy_unify lhs rhs site).stops f hf]
  answers hno := by
    rcases (stoppedBy_unify lhs rhs site).answers hno with ⟨⟨l, r⟩, h⟩ | ⟨cause, h⟩
    · rw [compare, h]
      exact answers_answer op l r site
    · rw [compare, h]
      exact .inr ⟨cause, rfl⟩

end Value

/-! ## Conversions and comparisons -/

/-- **Conversions and comparisons answer, but for numbers that are there and cannot be had.**  For
every token or none, every operator and every two operands:

* a whole number of any width is had, or refused by a script error at the site, unless the token is
  a decimal number with separators around it or with too many digits; then the reader's own fault
  comes through;
* a real and a truth value are had or refused, whatever the token is;
* a comparison has an answer or is refused, unless a whole number beyond the reals stands against a
  real, an unreadable text against a whole number, or a whole number with too many digits against a
  text; then the fault of the number comes through. -/
theorem answers_or_stopped (site : Option Site) :
    (∀ (token : Option String) (w : Width) (reading : Reading),
      StoppedBy (fun f => ∃ t, token = some t ∧ Unreadable t f) site
        (toWhole w reading token site)) ∧
    (∀ token : Option String, Answers site (toDouble token site) ∧ Answers site (toBool token site)) ∧
    ∀ (op : Kind) (lhs rhs : Value),
      StoppedBy (Value.Unmatched lhs rhs) site (Value.compare op lhs rhs site) := by
  refine ⟨?_, ?_, ?_⟩
  · intro token w reading
    exact stoppedBy_toWhole w reading token site
  · intro token
    exact ⟨answers_toDouble token site, answers_toBool token site⟩
  · intro op lhs rhs
    exact Value.stoppedBy_compare op lhs rhs site

/-- A five behind a separator is a decimal number to the grammar and none to the reader of digits, and
a number of 401 digits has no real to be compared as: neither ends by a script error. -/
theorem escapes_of_separator :
    toInt (some "\x1c5") none = .error (.trouble (.number (.surrounded "'\\x1c5'"))) ∧
      Value.compare .less (.int (10 ^ 400)) (.real 0.5) none =
        .error (.trouble (.number .tooLarge)) ∧
      (¬ ∀ token, Answers none (toInt token none)) ∧
      ¬ ∀ op lhs rhs, Answers none (Value.compare op lhs rhs none) := by
  have hform : wholeForm? "\x1c5" = some (false, ['5']) := by decide +kernel
  have hfront : '\x1c' ∈ "\x1c5".toList.takeWhile isBlank := by decide +kernel
  have hshown : String.ofList ((quoted "\x1c5").toList.take 200) = "'\\x1c5'" := by decide +kernel
  have htext := Unreadable.before (wholeForm?_eq_some_iff.mp hform) hfront (by decide)
  have hfar : Double.firstBeyond ≤ (10 ^ 400 : Int).natAbs := by decide +kernel
  have hint : toInt (some "\x1c5") none = .error (.trouble (.number (.surrounded "'\\x1c5'"))) := by
    rw [← hshown]
    exact (stoppedBy_toWhole int32 .int (some "\x1c5") none).stops _ ⟨_, rfl, htext⟩
  have hless : Value.compare .less (.int (10 ^ 400)) (.real 0.5) none =
      .error (.trouble (.number .tooLarge)) :=
    (Value.stoppedBy_compare .less (.int (10 ^ 400)) (.real 0.5) none).stops _ (.left hfar)
  refine ⟨hint, hless, ?_, ?_⟩
  · intro hall
    exact (hall _).not_trouble _ hint
  · intro hall
    exact (hall _ _ _).not_trouble _ hless

end Cadence
