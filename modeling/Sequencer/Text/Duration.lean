import Sequencer.Number.Decimal

/-!
Time spans in nanoseconds: read from seconds, and written in the largest unit that leaves a whole
part.
-/
namespace Sequencer.Duration

/-- The nearest natural number to a fraction, a half going to the even one. -/
def nearest (num den : Nat) : Nat :=
  let down := num / den
  let rest := 2 * (num % den)
  if rest < den ∨ (rest = den ∧ down % 2 = 0) then down else down + 1

/-- The nanoseconds of a time in seconds; none if it is negative, no number or beyond 2^64 seconds. -/
def ofSeconds? (seconds : Float) : Option Nat :=
  match Decimal.Parts.ofFloat seconds with
  | .nan | .infinite _ => none
  | .finite negative mantissa exponent =>
    let span := nearest (mantissa * 10 ^ 9 * 2 ^ exponent.toNat) (2 ^ (-exponent).toNat)
    if (negative && mantissa ≠ 0) || 2 ^ 64 * 10 ^ 9 ≤ span then none else some span

def ofMilliseconds (ms : Nat) : Nat := ms * 10 ^ 6

/-- A fraction of `10 ^ places`, without zeros at its end; nothing if it is zero. -/
def fractionText (places fraction : Nat) : String :=
  if fraction = 0 then ""
  else
    let digits := (Nat.toDigits 10 (10 ^ places + fraction)).drop 1
    "." ++ String.ofList (digits.reverse.dropWhile (· == '0')).reverse

def text (span : Nat) : String :=
  let write (places : Nat) (unit : String) : String :=
    toString (span / 10 ^ places) ++ fractionText places (span % 10 ^ places) ++ unit
  if 10 ^ 9 ≤ span then write 9 "s"
  else if 10 ^ 6 ≤ span then write 6 "ms"
  else if 10 ^ 3 ≤ span then write 3 "µs"
  else write 0 "ns"

end Sequencer.Duration
