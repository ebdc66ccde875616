/-!
Fixed-width columns and hexadecimal numbers.
-/
namespace Sequencer.Text

def padLeft (width : Nat) (text : String) (fill : Char := ' ') : String :=
  String.ofList (List.replicate (width - text.length) fill) ++ text

def padRight (width : Nat) (text : String) : String :=
  text ++ String.ofList (List.replicate (width - text.length) ' ')

/-- Lower-case digits without a mark. -/
def hexDigits (n : Nat) : String := String.ofList (Nat.toDigits 16 n)

/-- `0x` and the digits, filled with zeros to at least `digits` of them. -/
def hex (n : Nat) (digits : Nat := 1) : String := "0x" ++ padLeft digits (hexDigits n) '0'

def commaSeparated (texts : List String) : String := String.intercalate ", " texts

def bracketed (texts : List String) : String := "[" ++ commaSeparated texts ++ "]"

end Sequencer.Text
