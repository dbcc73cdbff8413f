/-
  ORDER — a real before another is not at or after it.

  Deadlines are compared with the clock in both ways: `now < d` while a deadline is still to come,
  `d ≤ now` once it has.  Of two reals at most one holds, and with the undefined number among them
  none does.  A real is compared by its sign, its exponent and its mantissa, so to compare the other
  way round is to turn the answer around (`compare_swap`).
-/
import Mathlib.Order.Compare

namespace Cadence

open Float.Model

/-- Exponents and mantissas compared the other way round. -/
theorem compare_then_swap (e e' : Int) (m m' : Nat) :
    (compare e' e).then (compare m' m) = ((compare e e').then (compare m m')).swap := by
  rw [Ordering.swap_then, ← Int.compare_swap, ← Nat.compare_swap]

/-- Two reals compared the other way round. -/
theorem compare_swap (a b : UnpackedFloat) : b.compare a = (a.compare b).map Ordering.swap := by
  cases a with
  | notANumber =>
    cases b with
    | infinity t => cases t <;> rfl
    | finite t => cases t <;> rfl
    | _ => rfl
  | infinity s =>
    cases b with
    | infinity t => cases s <;> cases t <;> rfl
    | finite t => cases s <;> cases t <;> rfl
    | _ => cases s <;> rfl
  | zero s =>
    cases b with
    | infinity t => cases t <;> rfl
    | finite t => cases t <;> rfl
    | _ => rfl
  | finite s m e =>
    cases b with
    | infinity t => cases s <;> cases t <;> rfl
    | finite t m' e' =>
      -- only here two numbers of one sign meet
      cases s with
      | negative =>
        cases t with
        | negative => exact congrArg (some ·.swap) (compare_then_swap e e' m m')
        | positive => rfl
      | positive =>
        cases t with
        | negative => rfl
        | positive => exact congrArg some (compare_then_swap e e' m m')
    | _ => cases s <;> rfl

/-- **A real before another is not at or after it.** -/
theorem not_le_of_before {x y : Float} (h : x < y) : ¬ y ≤ x := by
  have hlt : x.toModel.unpack.compare y.toModel.unpack = some .lt :=
    eq_of_beq (of_decide_eq_true h)
  intro hle
  have hback : (y.toModel.unpack.compare x.toModel.unpack).any (·.isLE) = true :=
    of_decide_eq_true hle
  rw [compare_swap, hlt] at hback
  cases hback

end Cadence
