import Sequencer.Number.Power

/-!
The numbers on which values and times are computed.

The program computes in binary64. Its conversion rules are written over `Scalar`, so that they can
also be read in exact rational arithmetic, where rounding happens only in `roundEven`.
-/
namespace Sequencer

class Scalar (α : Type) extends Add α, Sub α, Mul α, Div α where
  ofNat : Nat → α
  /-- `10 ^ n`. -/
  tenPow : Nat → α
  isFinite : α → Bool
  lt : α → α → Bool
  le : α → α → Bool
  /-- The nearest whole number, a half going to the even neighbour. -/
  roundEven : α → α
  /-- The whole part; zero for what is negative or not a number. -/
  toNat : α → Nat
  /-- The remainder of a division that rounds down. -/
  remainder : α → α → α
  /-- How many decimal places tell apart two ticks of a clock of this rate. -/
  decimalPlaces : α → Nat

namespace Scalar

/-- The nearest value between two limits. -/
@[inline] def clamp {α : Type} [Scalar α] (x lo hi : α) : α :=
  if lt x lo then lo else if lt hi x then hi else x

end Scalar

namespace Binary64

/-- Below `2 ^ 52` a sum with `2 ^ 52` has no fraction left; above it there is none to begin with. -/
@[inline] def roundEven (x : Float) : Float :=
  if x.abs < 4503599627370496.0 && x != 0.0 then
    if x < 0.0 then -((-x + 4503599627370496.0) - 4503599627370496.0)
    else (x + 4503599627370496.0) - 4503599627370496.0
  else x

/-- Powers by repeated squaring. -/
def pow (base : Float) (n : Nat) : Float :=
  go base n 1.0
where
  go (base : Float) (n : Nat) (result : Float) : Float :=
    let result := if n % 2 = 1 then result * base else result
    if _h : n / 2 = 0 then result else go (base * base) (n / 2) result
  termination_by n
  decreasing_by omega

/-- `|x|` as `mantissa * 2 ^ exponent`. -/
private def decode (x : Float) : Nat × Int :=
  let bits : Nat := x.toBits.toNat
  let biased : Nat := bits / 2 ^ 52 % 2 ^ 11
  let fraction : Nat := bits % 2 ^ 52
  if biased = 0 then (fraction, -1074) else (2 ^ 52 + fraction, (biased : Int) - 1075)

/-- The remainder of `|x|`, which is representable and therefore exact. -/
private def remainderOfAbs (x : Float) (m : Nat) : Float :=
  let (mantissa, exponent) := decode x
  if exponent ≥ 0 then Float.ofNat (mantissa * 2 ^ exponent.toNat % m)
  else Float.scaleB (Float.ofNat (mantissa % (m * 2 ^ (-exponent).toNat))) exponent

/-- The remainder for a whole positive `m`. -/
def remainder (x m : Float) : Float :=
  if x.isFinite then
    let r := remainderOfAbs x m.toUInt64.toNat
    if x < 0.0 then
      let r := -r
      if r < 0.0 then r + m else r
    else r
  else 0.0 / 0.0

/-- The logarithm of the rate, rounded up; a rate that has none gives zero. -/
def decimalPlaces (rate : Float) : Nat :=
  min rate.log10.ceil.toUInt64.toNat (2 ^ 31 - 1)

end Binary64

instance : Scalar Float where
  ofNat := Float.ofNat
  tenPow := Binary64.pow 10.0
  isFinite := Float.isFinite
  lt a b := a < b
  le a b := a ≤ b
  roundEven := Binary64.roundEven
  toNat x := x.toUInt64.toNat
  remainder := Binary64.remainder
  decimalPlaces := Binary64.decimalPlaces

namespace Exact

def roundEven (x : Rat) : Rat :=
  let down := x.floor
  let rest := x - down
  if rest < 1 / 2 then down
  else if 1 / 2 < rest then (down + 1 : Int)
  else if down % 2 = 0 then down else (down + 1 : Int)

/-- The least `n` with `rate ≤ 10 ^ n`. -/
def decimalPlaces (rate : Rat) : Nat :=
  let ticks := rate.ceil.toNat
  if ticks ≤ 1 then 0 else (Nat.toDigits 10 (ticks - 1)).length

end Exact

instance : Scalar Rat where
  ofNat n := n
  tenPow n := 10 ^ n
  isFinite _ := true
  lt a b := a < b
  le a b := a ≤ b
  roundEven := Exact.roundEven
  toNat x := x.floor.toNat
  remainder x m := x - m * (x / m).floor
  decimalPlaces := Exact.decimalPlaces

end Sequencer
