import Mathlib.Algebra.Order.Floor.Ring
import Mathlib.Algebra.Ring.Int.Parity
import Mathlib.Data.Rat.Floor
import Mathlib.Tactic.Linarith
import Sequencer.Number.Scalar

/-!
Rounding of rational numbers to whole numbers, a half to the even neighbour.

The rounded number is at most a half away, and even if it is exactly a half away. This fixes it, and all else follows:
what is nearer than a half to a whole number is rounded to it, and rounding keeps the order.
-/
namespace Sequencer

namespace Exact
variable {x y : ℚ} {m n : ℤ}

/-- The whole number next to `x`, and of two that are equally near the even one. -/
structure RoundsTo (x : ℚ) (n : ℤ) : Prop where
  near : |x - n| ≤ 1 / 2
  tie : |x - n| = 1 / 2 → Even n

theorem RoundsTo.of_near (near : |x - n| < 1 / 2) : RoundsTo x n :=
  ⟨near.le, fun tie => absurd tie near.ne⟩

theorem roundsTo_intCast (n : ℤ) : RoundsTo n n :=
  .of_near (by rw [sub_self, abs_zero]; norm_num)

theorem RoundsTo.mono (one : RoundsTo x m) (two : RoundsTo y n) (order : x ≤ y) : m ≤ n := by
  by_contra reversed
  have apart : (n : ℚ) + 1 ≤ m := by exact_mod_cast not_le.mp reversed
  have low := (abs_le.mp one.near).1
  have high := (abs_le.mp two.near).2
  -- both have to be the point half way between two neighbours, one of which is odd
  have midway : x = m - 1 / 2 := by linarith
  have same : (m : ℚ) = n + 1 := by linarith
  have evenAbove : Even m := one.tie (by rw [midway, sub_sub_cancel_left, abs_neg]; norm_num)
  have evenBelow : Even n := two.tie (by
    have half : y - n = 1 / 2 := by linarith
    rw [half]
    norm_num)
  have odd : Odd m := by
    rw [show m = n + 1 by exact_mod_cast same]
    exact evenBelow.add_one
  exact (Int.not_even_iff_odd.mpr odd) evenAbove

theorem RoundsTo.unique (one : RoundsTo x m) (two : RoundsTo x n) : m = n :=
  le_antisymm (one.mono two le_rfl) (two.mono one le_rfl)

theorem roundsTo_roundEven (x : ℚ) : ∃ n : ℤ, roundEven x = n ∧ RoundsTo x n := by
  have below := Rat.floor_le x
  have above := Rat.lt_floor_add_one x
  push_cast at above
  unfold roundEven
  dsimp only
  split
  · refine ⟨x.floor, rfl, .of_near ?_⟩
    rw [abs_lt]
    constructor <;> linarith
  · split
    · refine ⟨x.floor + 1, rfl, .of_near ?_⟩
      push_cast
      rw [abs_lt]
      constructor <;> linarith
    · have half : x - x.floor = 1 / 2 := by linarith
      split
      · rename_i even
        refine ⟨x.floor, rfl, ?_, fun _ => Int.even_iff.mpr even⟩
        rw [half]
        norm_num
      · rename_i odd
        refine ⟨x.floor + 1, rfl, ?_, fun _ => (Int.not_even_iff_odd.mp (mt Int.even_iff.mp odd)).add_one⟩
        push_cast
        rw [abs_le]
        constructor <;> linarith

theorem roundEven_eq (rounds : RoundsTo x n) : roundEven x = n := by
  obtain ⟨m, rounded, same⟩ := roundsTo_roundEven x
  rw [rounded, same.unique rounds]

theorem roundEven_mono (order : x ≤ y) : roundEven x ≤ roundEven y := by
  obtain ⟨m, left, one⟩ := roundsTo_roundEven x
  obtain ⟨n, right, two⟩ := roundsTo_roundEven y
  rw [left, right]
  exact_mod_cast one.mono two order

theorem abs_roundEven_sub_le (x : ℚ) : |roundEven x - x| ≤ 1 / 2 := by
  obtain ⟨n, rounded, rounds⟩ := roundsTo_roundEven x
  rw [rounded, abs_sub_comm]
  exact rounds.near

end Exact

end Sequencer
