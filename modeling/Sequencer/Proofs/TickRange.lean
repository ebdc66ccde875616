import Mathlib.Logic.Basic
import Sequencer.Timeline.Tick

/-!
Every tick fits in 32 bits. A time is refused if its tick is above that range as a number of binary64, and what is not
above the range has no whole part above it either.
-/
namespace Sequencer

namespace Binary64
open Float.Model Float.Model.UnpackedFloat

theorem mantissa_shifted (m n : Nat) :
    (ExtendedMantissa.ofMantissaAndAccuracy m .exact >>> n).mantissa = m / 2 ^ n := by
  show (n.repeat ExtendedMantissa.shiftRightOne _).mantissa = _
  induction n with
  | zero => simp [Nat.repeat, ExtendedMantissa.ofMantissaAndAccuracy]
  | succ n ih => rw [Nat.repeat, ExtendedMantissa.shiftRightOne, ih, Nat.div_div_eq_div_mul, Nat.pow_succ]

/-- The whole part of a number with binary places. -/
theorem roundToInt_eq (sign : Sign) (m : Nat) {e : Int} (places : e ≤ 0) :
    roundToInt sign m e = sign.apply (m / 2 ^ (-e).toNat : Nat) := by
  have level : (e - 0).toNat = 0 := by omega
  have dropped : (0 - (e - (0 : Nat))).toNat = (-e).toNat := by omega
  simp only [roundToInt, decreaseExponent, level, Nat.shiftLeft_zero, shiftToExponent, mantissa_shifted, dropped]

theorem mantissa_lt {x : Float} {sign : Sign} {m : Nat} {e : Int} {positive : 0 < m}
    (unpacked : x.toModel.unpack = .finite sign m e positive) : m < 2 ^ 53 := by
  unfold Float.Model.unpack UnpackedFloat.unpack at unpacked
  dsimp only at unpacked
  rcases ite_eq_iff.mp unpacked with ⟨_, special⟩ | ⟨_, ordinary⟩
  · rcases ite_eq_iff.mp special with ⟨_, infinite⟩ | ⟨_, invalid⟩
    · cases infinite
    · cases invalid
  · rcases ite_eq_iff.mp ordinary with ⟨_, subnormal⟩ | ⟨_, normal⟩
    · rcases dite_eq_iff.mp subnormal with ⟨_, zero⟩ | ⟨_, small⟩
      · cases zero
      · cases small
        exact Nat.lt_trans (BitVec.isLt _) (by decide)
    · cases normal
      exact BitVec.isLt _

/-- The mantissa of the last tick, with 21 binary places. -/
def lastMantissa : Nat := maxTick * 2 ^ 21

theorem maxTick_lt {x : Float}
    (above : UnpackedFloat.lt (.finite .positive lastMantissa (-21) (by decide)) x.toModel.unpack) :
    Float.ofNat maxTick < x :=
  decide_eq_true (p := (Float.ofNat maxTick).toModel < x.toModel) above

/-- Not to be above the last tick is to have more binary places than it, or as many and no larger mantissa. -/
theorem places_of_not_above {x : Float} {m : Nat} {e : Int} {positive : 0 < m}
    (unpacked : x.toModel.unpack = .finite .positive m e positive) (inRange : ¬ Float.ofNat maxTick < x) :
    e < -21 ∨ e = -21 ∧ m ≤ lastMantissa := by
  refine Classical.byContradiction fun other => inRange (maxTick_lt ?_)
  have above : (compare (-21) e).then (compare lastMantissa m) = .lt := by
    rw [Ordering.then_eq_lt, Int.compare_eq_lt, Nat.compare_eq_lt, Int.compare_eq_eq]
    omega
  rw [unpacked]
  show (some ((compare (-21) e).then (compare lastMantissa m)) == some .lt) = true
  rw [above]
  rfl

theorem wholePart_le {x : Float} (inRange : ¬ Float.ofNat maxTick < x) :
    (x.toModel.unpack.toInt 0 (UInt64.size - 1)).toNat ≤ maxTick := by
  cases unpacked : x.toModel.unpack with
  | notANumber => exact Nat.zero_le _
  | zero sign => exact Nat.zero_le _
  | infinity sign =>
    cases sign with
    | negative => exact Nat.zero_le _
    | positive => exact absurd (maxTick_lt (by rw [unpacked]; rfl)) inRange
  | finite sign m e positive =>
    cases sign with
    | negative =>
      show (-((_ : Nat) : Int)).toNat ≤ maxTick
      rw [Int.toNat_neg_natCast]
      exact Nat.zero_le _
    | positive =>
      have near := places_of_not_above unpacked inRange
      have bounded := mantissa_lt unpacked
      show (roundToInt .positive m e).toNat ≤ maxTick
      rw [roundToInt_eq .positive m (by omega)]
      show m / 2 ^ (-e).toNat ≤ maxTick
      rcases near with more | ⟨rfl, upTo⟩
      · have wide : 2 ^ 22 ≤ 2 ^ (-e).toNat := Nat.pow_le_pow_right (by decide) (by omega)
        calc m / 2 ^ (-e).toNat ≤ m / 2 ^ 22 := Nat.div_le_div_left wide (by decide)
          _ ≤ maxTick := by unfold maxTick; omega
      · have places : (-(-21 : Int)).toNat = 21 := rfl
        rw [places]
        unfold lastMantissa at upTo
        omega

theorem toNat_le_maxTick {x : Float} (inRange : ¬ Float.ofNat maxTick < x) : x.toUInt64.toNat ≤ maxTick := by
  have whole := wholePart_le inRange
  have small : (x.toModel.unpack.toInt 0 (UInt64.size - 1)).toNat < UInt64.size := Nat.lt_of_le_of_lt whole (by decide)
  show (UInt64.ofNatClamp _).toNat ≤ maxTick
  rw [UInt64.ofNatClamp, dif_pos small]
  exact whole

end Binary64

theorem tickOf_le {rate time : Float} {tick : Nat} (success : tickOf rate time = .ok tick) : tick ≤ maxTick := by
  unfold tickOf at success
  dsimp only at success
  split at success
  · cases success
  · split at success
    · cases success
    · split at success
      · cases success
      · rename_i inRange
        cases success
        exact Binary64.toNat_le_maxTick fun above => inRange (decide_eq_true above)

end Sequencer
