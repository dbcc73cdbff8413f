/-
  LEAVES — a value that is written into a script is the value that is found there again.

  A builder makes a leaf of every value: a whole number becomes its decimal digits, the number of an
  object its hexadecimal digits behind `0x`, a text stays what it is.  Evaluation sees the kind and
  the text of the leaf only, and so does an argument that stands for the leaf.

  1. **As one side of a comparison** — a leaf is read by its kind, whatever stands behind it
     (`evaluateOperand_whole`).  That the digits read back is a fact about numbers
     (`toWhole_intText`, `toWhole_hexText`).
  2. **As an argument** — a text that no variable has as its name is read as it stands.
  3. **The headline** (`literals_survive`) — a number comes back as itself if its width holds it,
     and is refused by a script error otherwise; a text always comes back.
-/
import Cadence.Proofs.Expressions.Attaching
import Cadence.Proofs.Numbers.Spelling
import Cadence.Proofs.Running.Asking

namespace Cadence

open ScriptM Literal

section

variable {σ ι : Type} (host : Host σ ι) (owner : Nat) (w : World σ ι)

/-! ## As one side of a comparison -/

/-- A whole number that is written out as one side of a comparison, whatever stands behind it, is
the number if the text of its leaf is read, and refused as the reading refuses it otherwise. -/
theorem evaluateOperand_whole {s : Site} (hs : s.kind.isModifier = false) (hword : s.kind ≠ .operand)
    {read : Except Fault Int} (hvalue : s.value host = do return .int (← lift read))
    {p : Prop} [Decidable p] {n : Int} {fault : Fault}
    (hread : read = if p then .ok n else .error fault) (more : List Site) :
    evaluateOperand host owner (s :: more) w =
      if p then .ok (.int n, more) w else .error fault w := by
  rw [evaluateOperand_written host hs hword, hvalue, hread]
  split
  · rfl
  · rfl

/-! ## As an argument -/

variable {w}

/-- A text that is no variable's name is read as it stands. -/
theorem read_of_unbound {a : Argument} {t : String} (ha : a.lexeme = some t)
    (h : (w.script a.owner).lookup t = none) {α : Type} (reading : Reading)
    (convert : Option String → Option Site → Except Fault α) :
    w.read reading convert a = convert (some t) (some a.site) := by
  unfold World.read
  rw [resolveText_of_unbound ha h]

end

/-! ## What comes back -/

/-- The leaf of a number is read as the number if a width holds it, and refused otherwise. -/
theorem eq_ite_of_holds {width : Width} {n : Int} {read : Except Fault Int} {fault : Fault}
    (h : width.Holds n ∧ read = .ok n ∨ ¬ width.Holds n ∧ read = .error fault)
    {p : Prop} [Decidable p] (hp : width.Holds n ↔ p) :
    read = if p then .ok n else .error fault := by
  rcases h with ⟨hin, hok⟩ | ⟨hout, herror⟩
  · rw [if_pos (hp.mp hin)]
    exact hok
  · rw [if_neg (mt hp.mpr hout)]
    exact herror

/-- **What is written into a script is found there again.**  Wherever the leaf of a value stands and
whatever stands behind it:

* a whole number, in decimal, is as one side of a comparison the number itself if 32 bits with a
  sign hold it, and otherwise refused by a script error at the leaf; and so it is as an argument,
  unless a variable has the digits as its name;
* the number of an object, in hexadecimal, is the number itself if 32 bits without a sign hold it,
  and otherwise refused; and so it is as an argument;
* a text is itself. -/
theorem literals_survive {σ ι : Type} (host : Host σ ι) (owner : Nat) (line : Int) (place : Site)
    (i : Nat) (more : List Site) (w : World σ ι) :
    (∀ n : Int, Writable n → ∀ leaf, leaf = place.down i ((Token.int n).node line) →
      evaluateOperand host owner (leaf :: more) w =
        (if -2 ^ 31 ≤ n ∧ n < 2 ^ 31 then .ok (.int n, more) w
        else .error (.at (some leaf) (.notConvertible .int (some (intText n)))) w) ∧
      ((w.script owner).lookup (intText n) = none →
        w.asInt ⟨owner, leaf⟩ =
          if -2 ^ 31 ≤ n ∧ n < 2 ^ 31 then .ok n
          else .error (.at (some leaf) (.notConvertible .int (some (intText n)))))) ∧
    (∀ n : Int, ∀ leaf, leaf = place.down i ((Token.serial n).node line) →
      evaluateOperand host owner (leaf :: more) w =
        (if 0 ≤ n ∧ n < 2 ^ 32 then .ok (.int n, more) w
        else .error (.at (some leaf) (.notConvertible .uint (some (hexText n)))) w) ∧
      ((w.script owner).lookup (hexText n) = none →
        w.asUInt ⟨owner, leaf⟩ =
          if 0 ≤ n ∧ n < 2 ^ 32 then .ok n
          else .error (.at (some leaf) (.notConvertible .uint (some (hexText n)))))) ∧
    ∀ text : String,
      evaluateOperand host owner (place.down i ((Token.string text).node line) :: more) w =
        .ok (.text text, more) w := by
  refine ⟨?_, ?_, fun text => rfl⟩
  · rintro n hn leaf rfl
    have hread := eq_ite_of_holds (p := -2 ^ 31 ≤ n ∧ n < 2 ^ 31)
      (toWhole_intText hn int32 .int (some (place.down i ((Token.int n).node line)))) Iff.rfl
    constructor
    · exact evaluateOperand_whole host owner w rfl (by rintro ⟨⟩) rfl hread more
    · intro hunbound
      exact (read_of_unbound (a := ⟨owner, _⟩) rfl hunbound .int toInt).trans hread
  · rintro n leaf rfl
    have hread := eq_ite_of_holds (p := 0 ≤ n ∧ n < 2 ^ 32)
      (toWhole_hexText (w := uint32) rfl n .uint
        (some (place.down i ((Token.serial n).node line)))) Iff.rfl
    constructor
    · exact evaluateOperand_whole host owner w rfl (by rintro ⟨⟩) rfl hread more
    · intro hunbound
      exact (read_of_unbound (a := ⟨owner, _⟩) rfl hunbound .uint toUInt).trans hread

/-- The least signed number and the greatest number of an object come back, and a number of an
object below zero does not. -/
theorem literals_survive_extremes :
    let w : World Unit Unit := { host := () }
    let leaf (t : Token) : Site := (Site.root { kind := .script }).down 0 (t.node 1)
    Writable (-2147483648) ∧ (w.script 0).lookup "-2147483648" = none ∧
      evaluateOperand quietHost 0 [leaf (.int (-2147483648))] w = .ok (.int (-2147483648), []) w ∧
      w.asInt ⟨0, leaf (.int (-2147483648))⟩ = .ok (-2147483648) ∧
      w.asUInt ⟨0, leaf (.serial 4294967295)⟩ = .ok 4294967295 ∧
      evaluateOperand quietHost 0 [leaf (.serial (-16))] w =
        .error (.at (some (leaf (.serial (-16)))) (.notConvertible .uint (some "-0x10"))) w := by
  intro w leaf
  obtain ⟨hint, hserial, -⟩ := literals_survive quietHost 0 1 (Site.root { kind := .script }) 0 [] w
  have hwritable : Writable (-2147483648) := by decide
  obtain ⟨hleast, hleastArg⟩ := hint _ hwritable _ rfl
  have hgreatest := (hserial 4294967295 _ rfl).2 rfl
  have hnegative := (hserial (-16) _ rfl).1
  exact ⟨hwritable, rfl, hleast, hleastArg rfl, hgreatest, hnegative⟩

end Cadence
