import Sequencer.Settings.Value
import Sequencer.Toml.Quoted

/-!
Values that are no lists and no tables: texts, truth values, numbers and dates.
-/
namespace Sequencer.Toml

open Reader (satisfying char word run maybe many)

/-- Digits, with single underscores between them. -/
def digitRun (isDigit : Char → Bool) : Reader (List Char) := do
  let digit := satisfying isDigit
  return (← digit) :: (← many (digit <|> do char '_'; digit))

def decimalDigits : Reader (List Char) := digitRun Char.isDigit

/-- No zero stands before other digits. -/
def wholeDigits : Reader (List Char) :=
  (do char '0'; return ['0']) <|> decimalDigits

/-- Whether there is a minus sign. -/
def sign : Reader Bool := (do char '-'; return true) <|> (do char '+'; return false) <|> pure false

def whole (negative : Bool) (n : Nat) : Reader Value :=
  let limit := if negative then 2 ^ 63 + 1 else 2 ^ 63
  if n < limit then pure (.integer (if negative then -(n : Int) else n)) else failure

/-- A whole number in one of the bases with a mark of their own. -/
def markedWhole (mark : String) (base : Nat) : Reader Value := do
  word mark
  let digits ← digitRun fun c => match hexValue? c with
    | some n => n < base
    | none => false
  whole false (number base digits)

def integer : Reader Value :=
  markedWhole "0x" 16 <|> markedWhole "0o" 8 <|> markedWhole "0b" 2 <|> do
    let negative ← sign
    whole negative (number 10 (← wholeDigits))

/-- `coefficient * 10 ^ exponent`, rounded. The text of `coefficient` has as many digits as given, so
that a power that is out of range is never computed. -/
def rounded (digits coefficient : Nat) (exponent : Int) : Float :=
  if coefficient = 0 ∨ exponent + digits < -400 then 0.0
  else if 400 < exponent + (Nat.log2 coefficient / 4 : Nat) then 1.0 / 0.0
  else Float.ofScientific coefficient (exponent < 0) exponent.natAbs

def exponent : Reader Int := do
  let _ ← satisfying fun c => c == 'e' || c == 'E'
  let negative ← sign
  let n := number 10 (← decimalDigits)
  return if negative then -(n : Int) else n

/-- A number with a fraction, an exponent or both. Only a negative one may be too large. -/
def pointed : Reader Value := do
  let negative ← sign
  let digits ← wholeDigits
  let fraction ← maybe do char '.'; decimalDigits
  let power ← maybe exponent
  if fraction.isNone ∧ power.isNone then failure
  let digits := digits ++ fraction.getD []
  let places : Nat := (fraction.getD []).length
  let x := rounded digits.length (number 10 digits) (power.getD 0 - places)
  if negative then return .real (-x)
  else if x.isFinite then return .real x
  else failure

def special : Reader Value := do
  let negative ← sign
  let x ← (do word "inf"; return 1.0 / 0.0) <|> (do word "nan"; return 0.0 / 0.0)
  return .real (if negative then -x else x)

/-! Dates and times -/

/-- A number of so many digits between two limits. -/
def numeral (digits low high : Nat) : Reader Nat := do
  let n := number 10 (← (List.range digits).mapM fun _ => satisfying Char.isDigit)
  if low ≤ n ∧ n ≤ high then return n else failure

def monthLength (year month : Nat) : Nat :=
  if month = 2 then
    if year % 4 = 0 ∧ (year % 100 ≠ 0 ∨ year % 400 = 0) then 29 else 28
  else if month ∈ [4, 6, 9, 11] then 30
  else 31

def day : Reader Unit := do
  let year ← numeral 4 0 9999
  char '-'
  let month ← numeral 2 1 12
  char '-'
  let _ ← numeral 2 1 (monthLength year month)

def timeOfDay : Reader Unit := do
  let _ ← numeral 2 0 23
  char ':'
  let _ ← numeral 2 0 59
  char ':'
  let _ ← numeral 2 0 60
  let _ ← maybe do char '.'; Reader.someRun Char.isDigit

def zone : Reader Unit :=
  (do let _ ← satisfying fun c => c == 'Z' || c == 'z') <|> do
    let _ ← satisfying fun c => c == '+' || c == '-'
    let _ ← numeral 2 0 23
    char ':'
    let _ ← numeral 2 0 59

def moment : Reader Unit :=
  (do
    day
    let _ ← maybe do
      let _ ← satisfying fun c => c == 'T' || c == 't' || c == ' '
      timeOfDay
      maybe zone) <|> timeOfDay

/-- No field holds a date. It is a table of its own, so that it fits no other kind of value. -/
def date : Reader Value := do return .table [("date", .text (← Reader.taken moment))]

def truth : Reader Value :=
  (do word "true"; return .boolean true) <|> (do word "false"; return .boolean false)

def scalar : Reader Value :=
  .text <$> anyText <|> truth <|> date <|> pointed <|> special <|> integer

end Sequencer.Toml
