/-
  DURATIONS — a duration that a script gives in milliseconds always has its seconds.

  Seconds are reals, and not every whole number is one: those from about 10^308 on are infinite.
  But what an argument is read as has a width, so it is far from there:
    * a number that is read is in the range of its width (`whole?_inRange`);
    * a number of 32 bits is a real (`ofInt?_of_lt`).
-/
import Cadence.Number.Duration
import Cadence.Proofs.Numbers.Range
import Cadence.World.Resolve

namespace Cadence

/-! ## Reals -/

namespace Double

/-- A whole number of 32 bits is a real: the first that is none is far from there. -/
theorem ofInt?_of_lt {n : Int} (h : n.natAbs < Nat.pow 2 32) : ∃ x, ofInt? n = .ok x := by
  have hbound : Nat.pow 2 32 ≤ firstBeyond := by decide +kernel
  cases hn : ofInt? n with
  | ok x => exact ⟨x, rfl⟩
  | error f =>
    obtain ⟨hfar, -⟩ := ofInt?_eq_error_iff.mp hn
    omega

end Double

/-! ## Widths -/

namespace Literal

/-- A number that is read is in the range of its width. -/
theorem whole?_inRange {w : Width} (hw : 0 < w.bits) {token : String} {n : Int}
    (h : whole? w token = .ok (some n)) : w.least ≤ n ∧ n < w.limit := by
  unfold whole? at h
  split at h
  · obtain ⟨v, _, hv⟩ := Option.bind_eq_some_iff.mp (Except.ok.inj h)
    exact Width.ofBits?_inRange hw hv
  · split at h
    · exact absurd h nofun
    · rename_i negative ds _
      cases hr : readWhole token negative ds with
      | error fault =>
        rw [hr] at h
        exact absurd h nofun
      | ok v =>
        rw [hr] at h
        obtain ⟨rfl, hrange⟩ := Width.check?_eq_some_iff.mp (Except.ok.inj h)
        exact hrange

/-- So is a token that is converted. -/
theorem toWhole_inRange {w : Width} (hw : 0 < w.bits) {reading : Reading} {token : Option String}
    {site : Option Site} {n : Int} (h : toWhole w reading token site = .ok n) :
    w.least ≤ n ∧ n < w.limit := by
  unfold toWhole at h
  split at h
  · cases h
  · split at h
    · next v hv =>
      cases v with
      | none => cases h
      | some v =>
        cases h
        exact whole?_inRange hw hv
    · cases h

/-- A signed number of 32 bits is smaller than all that 32 bits hold. -/
theorem natAbs_lt_of_toInt {token : Option String} {site : Option Site} {n : Int}
    (h : toInt token site = .ok n) : n.natAbs < Nat.pow 2 32 := by
  have hrange : int32.least ≤ n ∧ n < int32.limit := toWhole_inRange (by decide) h
  have hleast : int32.least = -2147483648 := by decide
  have hlimit : int32.limit = 2147483648 := by decide
  rw [hleast, hlimit] at hrange
  show n.natAbs < 4294967296
  omega

/-- An unsigned number of 32 bits is a number below all that 32 bits hold. -/
theorem exists_of_toUInt {token : Option String} {site : Option Site} {m : Int}
    (h : toUInt token site = .ok m) : ∃ n : Nat, n < uint32.count ∧ m = n := by
  have hrange : uint32.least ≤ m ∧ m < uint32.limit := toWhole_inRange (by decide) h
  have hleast : uint32.least = 0 := by decide
  have hlimit : uint32.limit = uint32.count := by decide
  rw [hleast, hlimit] at hrange
  refine ⟨m.toNat, ?_, ?_⟩
  · omega
  · omega

end Literal

/-- A duration that a script gives as a whole number of milliseconds has its seconds. -/
theorem seconds_of_asInt {σ ι : Type} {w : World σ ι} {d : Argument} {n : Int}
    (h : w.asInt d = .ok n) : ∃ x, (Duration.whole n).seconds = .ok x := by
  unfold World.asInt World.read at h
  split at h
  · exact absurd h nofun
  · obtain ⟨x, hx⟩ := Double.ofInt?_of_lt (Literal.natAbs_lt_of_toInt h)
    refine ⟨x / 1000, ?_⟩
    show (Double.ofInt? n).map (· / 1000) = _
    rw [hx]
    rfl

end Cadence
