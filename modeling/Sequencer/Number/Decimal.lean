import Sequencer.Number.Power

/-!
Decimal text of binary64 numbers.

A finite number is decoded into `mantissa * 2 ^ exponent` and everything after that is exact
arithmetic on natural numbers. `shortest` finds the fewest digits that still read back as the same
number, `rounded` a fixed number of significant digits of the exact value. `plain` and `scientific`
are the two written forms.
-/
namespace Sequencer.Decimal

/-- A binary64 number, taken apart. -/
inductive Parts where
  | nan
  | infinite (negative : Bool)
  | finite (negative : Bool) (mantissa : Nat) (exponent : Int)
  deriving DecidableEq, Repr

def Parts.ofFloat (x : Float) : Parts :=
  let bits : Nat := x.toBits.toNat
  let negative := bits.testBit 63
  let biased : Nat := bits / 2 ^ 52 % 2 ^ 11
  let fraction : Nat := bits % 2 ^ 52
  if biased = 2047 then
    if fraction = 0 then .infinite negative else .nan
  else if biased = 0 then .finite negative fraction (-1074)
  else .finite negative (2 ^ 52 + fraction) ((biased : Int) - 1075)

/-- `coefficient * 10 ^ exponent`. -/
structure Digits where
  coefficient : Nat
  exponent : Int
  deriving DecidableEq, Repr

def digitCount (n : Nat) : Nat := (Nat.toDigits 10 n).length

/-- A positive fraction `num / den`, scaled by a power of ten. -/
private def scaled (num den : Nat) (power : Int) : Nat × Nat :=
  if power ≥ 0 then (num * 10 ^ power.toNat, den) else (num, den * 10 ^ (-power).toNat)

/-- The number of digits before the point; for a fraction below one, minus the zeros after it. -/
private def magnitude (num den : Nat) : Int :=
  if den ≤ num then digitCount (num / den)
  else 1 - (digitCount (den / num) : Int)

/-- The reals that read back as a number, over a common denominator; the ends belong to them if
`closed`. -/
structure Interval where
  low : Nat
  value : Nat
  high : Nat
  den : Nat
  closed : Bool
  deriving DecidableEq, Repr

/-- Half the distance to each neighbour; the lower neighbour of a power of two is twice as near. -/
def Interval.around (mantissa : Nat) (exponent : Int) : Interval :=
  let below := if mantissa = 2 ^ 52 ∧ exponent ≠ -1074 then 1 else 2
  let factor := 2 ^ (exponent - 2).toNat
  { low := (4 * mantissa - below) * factor
    value := 4 * mantissa * factor
    high := (4 * mantissa + 2) * factor
    den := 2 ^ (2 - exponent).toNat
    closed := mantissa % 2 = 0 }

/-- Whether `c * 10 ^ e` reads back as the number. -/
def Interval.covers (i : Interval) (c : Nat) (e : Int) : Bool :=
  let (low, den) := scaled i.low i.den (-e)
  let (high, _) := scaled i.high i.den (-e)
  if i.closed then low ≤ c * den && c * den ≤ high else low < c * den && c * den < high

/-- The nearest point of the grid `10 ^ e` that reads back, the upper one of two equally near. -/
def Interval.onGrid (i : Interval) (e : Int) : Option Nat :=
  let (num, den) := scaled i.value i.den (-e)
  let down := num / den
  match i.covers down e, i.covers (down + 1) e with
  | true, true => if 2 * (num % den) < den then some down else some (down + 1)
  | true, false => some down
  | false, true => some (down + 1)
  | false, false => none

/-- The coarsest grid with a point that reads back; seventeen digits always have one. -/
def shortest (mantissa : Nat) (exponent : Int) : Digits :=
  let i := Interval.around mantissa exponent
  let top := magnitude i.value i.den
  let tries := (List.range 17).findSome? fun n =>
    let e := top - (n + 1 : Nat)
    (i.onGrid e).map fun c =>
      if c = 10 ^ (n + 1) then (⟨1, top⟩ : Digits) else ⟨c, e⟩
  tries.getD ⟨mantissa, 0⟩

/-- The nearest value with `count` significant digits, a half going to the even digit. -/
def rounded (count : Nat) (mantissa : Nat) (exponent : Int) : Digits :=
  let num := mantissa * 2 ^ exponent.toNat
  let den := 2 ^ (-exponent).toNat
  let e := magnitude num den - count
  let (num, den) := scaled num den (-e)
  let down := num / den
  let rest := 2 * (num % den)
  let c := if rest < den then down else if den < rest then down + 1 else down + down % 2
  if c = 10 ^ count then ⟨10 ^ (count - 1), e + 1⟩ else ⟨c, e⟩

private def zeros (n : Nat) : String := String.ofList (List.replicate n '0')

/-- Positional text of a value, without an exponent and without a trailing point. -/
def Digits.positional (d : Digits) : String :=
  let text := toString d.coefficient
  if d.exponent ≥ 0 then text ++ zeros d.exponent.toNat
  else
    let places := (-d.exponent).toNat
    if text.length ≤ places then "0." ++ zeros (places - text.length) ++ text
    else
      let cs := text.toList
      let whole := cs.length - places
      String.ofList (cs.take whole) ++ "." ++ String.ofList (cs.drop whole)

/-- One digit, a point, the other digits and the power of ten. -/
def Digits.scientific (d : Digits) : String :=
  match (toString d.coefficient).toList with
  | [] => ""
  | lead :: rest =>
    let power := d.exponent + rest.length
    let mark := if rest.isEmpty then "" else "."
    String.singleton lead ++ mark ++ String.ofList rest ++ "e" ++ toString power

private def signed (negative : Bool) (text : String) : String :=
  if negative then "-" ++ text else text

/-- The shortest positional text that reads back as the same number. -/
def plain (x : Float) : String :=
  match Parts.ofFloat x with
  | .nan => "NaN"
  | .infinite negative => signed negative "inf"
  | .finite negative 0 _ => signed negative "0"
  | .finite negative m q => signed negative (shortest m q).positional

/-- The same digits, with a point in every text. -/
def pointed (x : Float) : String :=
  let text := plain x
  match Parts.ofFloat x with
  | .finite .. => if text.any (· == '.') then text else text ++ ".0"
  | _ => text

/-- Nine significant digits, for values that come out of transcendental functions. -/
def approximate (x : Float) : String :=
  match Parts.ofFloat x with
  | .nan => "NaN"
  | .infinite negative => signed negative "inf"
  | .finite negative m q =>
    if x.abs < 1e-12 then "0" else signed negative (rounded 9 m q).scientific

end Sequencer.Decimal
