import Sequencer.Number.Scalar

/-!
Ticks of the bus clock.

A time in seconds is first rounded to the decimal places that tell ticks apart, and then to the
nearest tick. Ticks fit in 32 bits.
-/
namespace Sequencer

def maxTick : Nat := 2 ^ 32 - 1

/-- Why a time was refused. -/
inductive TimeFault where
  | notFinite
  | negative
  | beyondRange
  /-- An interval has to end after it starts. -/
  | emptyInterval (start stop : Nat)
  /-- A stop time lies before the end of the last instruction, given in seconds. -/
  | beforeEnd (seconds : Float)

section
variable {α : Type} [Scalar α]

@[specialize] def quantise (rate t : α) : α :=
  let scale := Scalar.tenPow (Scalar.decimalPlaces rate)
  Scalar.roundEven (t * scale) / scale

@[specialize] def tickOf (rate t : α) : Except TimeFault Nat :=
  if !Scalar.isFinite t then .error .notFinite
  else
    let tick := Scalar.roundEven (quantise rate t * rate)
    if Scalar.lt tick (Scalar.ofNat 0) then .error .negative
    else if Scalar.lt (Scalar.ofNat maxTick) tick then .error .beyondRange
    else .ok (Scalar.toNat tick)

@[specialize] def timeOf (rate : α) (tick : Nat) : α := Scalar.ofNat tick / rate

end

end Sequencer
