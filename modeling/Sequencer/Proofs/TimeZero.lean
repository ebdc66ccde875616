import Sequencer.Board.Error

/-!
Time zero is tick zero, whatever the rate. The number of decimal places to which a time is rounded does not matter there:
zero stays zero, or is no number, however it is scaled, and either counts as no ticks.
-/
namespace Sequencer

namespace Binary64
open Float.Model

/-- Zero with either sign, or not a number. -/
inductive Vanishes : Float → Prop where
  | zero (sign : UnpackedFloat.Sign) : Vanishes (.ofModel (pack (.zero sign)))
  | notANumber : Vanishes (.ofModel (pack .notANumber))

namespace Vanishes
variable {x : Float}

theorem unpack_zero (sign : UnpackedFloat.Sign) : (pack (.zero sign)).unpack = .zero sign := by
  cases sign <;> rfl

theorem unpack_notANumber : (pack .notANumber).unpack = .notANumber := rfl

theorem mul (vanishes : Vanishes x) (y : Float) : Vanishes (x * y) := by
  cases vanishes with
  | zero sign =>
    show Vanishes (.ofModel (pack (UnpackedFloat.mul .binary64 (pack (.zero sign)).unpack y.toModel.unpack)))
    rw [unpack_zero]
    cases y.toModel.unpack with
    | infinity _ => exact .notANumber
    | notANumber => exact .notANumber
    | zero _ => exact .zero _
    | finite _ _ _ _ => exact .zero _
  | notANumber =>
    show Vanishes (.ofModel (pack (UnpackedFloat.mul .binary64 (pack .notANumber).unpack y.toModel.unpack)))
    rw [unpack_notANumber]
    exact .notANumber

theorem div (vanishes : Vanishes x) (y : Float) : Vanishes (x / y) := by
  cases vanishes with
  | zero sign =>
    show Vanishes (.ofModel (pack (UnpackedFloat.div .binary64 (pack (.zero sign)).unpack y.toModel.unpack)))
    rw [unpack_zero]
    cases y.toModel.unpack with
    | infinity _ => exact .zero _
    | notANumber => exact .notANumber
    | zero _ => exact .notANumber
    | finite _ _ _ _ => exact .zero _
  | notANumber =>
    show Vanishes (.ofModel (pack (UnpackedFloat.div .binary64 (pack .notANumber).unpack y.toModel.unpack)))
    rw [unpack_notANumber]
    exact .notANumber

theorem roundEven (vanishes : Vanishes x) : Binary64.roundEven x = x := by
  cases vanishes with
  | zero sign => cases sign <;> decide
  | notANumber => decide

theorem isTickZero (vanishes : Vanishes x) :
    decide (x < Float.ofNat 0) = false ∧ decide (Float.ofNat maxTick < x) = false ∧ x.toUInt64.toNat = 0 := by
  cases vanishes with
  | zero sign => cases sign <;> decide
  | notANumber => decide

end Vanishes

end Binary64

/-- Time zero is tick zero at every rate, to however many decimal places it is rounded. -/
theorem tickOf_zero (rate : Float) : tickOf rate 0.0 = .ok 0 := by
  have zero : Binary64.Vanishes 0.0 := .zero .positive
  have quantised : Binary64.Vanishes (quantise rate 0.0) := by
    have scaled := zero.mul (Scalar.tenPow (Scalar.decimalPlaces rate))
    show Binary64.Vanishes (Binary64.roundEven _ / _)
    rw [scaled.roundEven]
    exact scaled.div _
  have tick := quantised.mul rate
  have finite : Scalar.isFinite (0.0 : Float) = true := by decide
  obtain ⟨positive, inRange, isZero⟩ := tick.isTickZero
  have rounded : Scalar.roundEven (quantise rate 0.0 * rate) = quantise rate 0.0 * rate := tick.roundEven
  unfold tickOf
  rw [finite, rounded]
  show (if decide (_ < Float.ofNat 0) = true then _ else if decide (Float.ofNat maxTick < _) = true then _ else
    Except.ok (Float.toUInt64 _).toNat) = _
  rw [positive, inRange, isZero]
  rfl

theorem tickFor_zero (what : String) (rate : Float) : tickFor what rate 0.0 = .ok 0 := by
  rw [tickFor, tickOf_zero]

end Sequencer
