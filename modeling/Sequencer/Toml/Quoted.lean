import Sequencer.Text.Layout
import Sequencer.Toml.Reader

/-!
Texts and keys.

A text stands in double quotes, where a backslash begins an escape, or in single quotes, where every
character stands for itself. With three quotes on each side it may hold line breaks. A key is a bare
word or a text on one line.
-/
namespace Sequencer.Toml

open Reader (satisfying next char word run someRun maybe many)

def apostrophe : Char := Char.ofNat 0x27

def hexValue? (c : Char) : Option Nat :=
  if c.isDigit then some (c.toNat - '0'.toNat)
  else if 'a' ≤ c ∧ c ≤ 'f' then some (c.toNat - 'a'.toNat + 10)
  else if 'A' ≤ c ∧ c ≤ 'F' then some (c.toNat - 'A'.toNat + 10)
  else none

/-- The number that the digits of a base write. -/
def number (base : Nat) (digits : List Char) : Nat :=
  digits.foldl (fun n c => n * base + (hexValue? c).getD 0) 0

def hexDigitRun : Nat → Reader (List Char)
  | 0 => pure []
  | n + 1 => do return (← satisfying fun c => (hexValue? c).isSome) :: (← hexDigitRun n)

/-- A character by its code point. -/
def codePoint (digits : Nat) : Reader Char := do
  let n := number 16 (← hexDigitRun digits)
  if n.isValidChar then return Char.ofNat n else failure

/-- What follows a backslash. -/
def escaped : Reader Char := do
  match ← next with
  | 'b' => return '\x08'
  | 't' => return '\t'
  | 'n' => return '\n'
  | 'f' => return '\x0c'
  | 'r' => return '\r'
  | '"' => return '"'
  | '\\' => return '\\'
  | 'u' => codePoint 4
  | 'U' => codePoint 8
  | _ => failure

def basicChar : Reader Char :=
  satisfying (fun c => !isControl c && c != '"' && c != '\\') <|> (do char '\\'; escaped)

def literalChar : Reader Char := satisfying fun c => !isControl c && c != apostrophe

def basicText : Reader String := do
  char '"'
  let content ← many basicChar
  char '"'
  return String.ofList content

def literalText : Reader String := do
  char apostrophe
  let content ← many literalChar
  char apostrophe
  return String.ofList content

/-- A backslash at the end of a line takes away the line break and all blanks after it. -/
def continuation : Reader (List Char) := do
  char '\\'
  blanks
  lineBreak
  let _ ← many (lineBreak <|> do let _ ← satisfying isBlank)
  return []

/-- One or two quotes within a text of several lines. -/
def innerQuotes (quote : Char) : Reader (List Char) := do
  let quotes ← someRun (· == quote)
  if quotes.length < 3 then return quotes else failure

/-- Three quotes end a text of several lines; up to two before them belong to it. -/
def closingQuotes (quote : Char) : Reader (List Char) := do
  let quotes ← run (· == quote)
  if 3 ≤ quotes.length ∧ quotes.length ≤ 5 then return quotes.drop 3 else failure

/-- A line break right after the opening quotes does not belong to the text. -/
def linesText (quote : Char) (content : Reader (List Char)) : Reader String := do
  Reader.chars (List.replicate 3 quote)
  let _ ← maybe lineBreak
  let parts ← many (content <|> (do lineBreak; return ['\n']) <|> innerQuotes quote)
  return String.ofList (parts.flatten ++ (← closingQuotes quote))

def anyText : Reader String :=
  linesText '"' (continuation <|> (do return [← basicChar])) <|> basicText
    <|> linesText apostrophe (do return [← literalChar]) <|> literalText

/-! Keys -/

def isBare (c : Char) : Bool := c.isAlphanum || c == '-' || c == '_'

def simpleKey : Reader String :=
  basicText <|> literalText <|> String.ofList <$> someRun isBare

/-- Keys that are nested deeper are refused, and so are values. -/
def depthLimit : Nat := 80

/-- Names with points between them, from the outer to the inner. -/
def dottedKey : Reader (List String) := do
  let key := do
    blanks
    let name ← simpleKey
    blanks
    return name
  let path ← Reader.separated key '.'
  if path ≠ [] ∧ path.length < depthLimit then return path else failure

/-! Writing -/

/-- How often a character stands in a row, at most. -/
def longestRow (c : Char) (text : List Char) : Nat :=
  let step (state : Nat × Nat) (d : Char) : Nat × Nat :=
    let row := if d = c then state.1 + 1 else 0
    (row, max state.2 row)
  (text.foldl step (0, 0)).2

def escape (c : Char) : List Char :=
  match c with
  | '\x08' => ['\\', 'b']
  | '\t' => ['\\', 't']
  | '\n' => ['\\', 'n']
  | '\x0c' => ['\\', 'f']
  | '\r' => ['\\', 'r']
  | '"' => ['\\', '"']
  | '\\' => ['\\', '\\']
  | _ =>
    if isControl c then
      '\\' :: 'u' :: (Text.padLeft 4 (Text.hexDigits c.toNat).toUpper '0').toList
    else [c]

/-- Writes a text between double quotes; `quotes` counts the quotes in a row just before it. Over
several lines, line breaks and two quotes in a row stand for themselves. -/
def escapeAll (severalLines : Bool) (quotes : Nat) : List Char → List Char
  | [] => []
  | c :: rest =>
    if severalLines ∧ c = '"' ∧ quotes < 2 then '"' :: escapeAll severalLines (quotes + 1) rest
    else if severalLines ∧ c = '\n' then '\n' :: escapeAll severalLines 0 rest
    else escape c ++ escapeAll severalLines 0 rest

/-- The quotes around a text. -/
inductive Quotes where
  | basic | literal | basicLines | literalLines
  deriving DecidableEq, Repr

/-- The first of the four in which nothing but tabs has to be escaped; without one, double quotes on
as many sides as the line breaks need. -/
def Quotes.of (text : List Char) : Quotes :=
  let lines := '\n' ∈ text
  let coded := text.any fun c => isControl c && c != '\n'
  let backslash := '\\' ∈ text
  let doubles := longestRow '"' text
  let singles := longestRow apostrophe text
  if ¬coded ∧ ¬backslash ∧ doubles = 0 ∧ ¬lines then .basic
  else if ¬coded ∧ singles = 0 ∧ ¬lines then .literal
  else if ¬coded ∧ ¬backslash ∧ doubles ≤ 2 then .basicLines
  else if ¬coded ∧ singles ≤ 2 then .literalLines
  else if lines then .basicLines
  else .basic

def Quotes.around (quotes : Quotes) (text : List Char) : List Char :=
  let first := if '\n' ∈ text then ['\n'] else []
  let between (mark : List Char) (content : List Char) := mark ++ content ++ mark
  match quotes with
  | basic => between ['"'] (escapeAll false 0 text)
  | literal => between [apostrophe] text
  | basicLines => between (List.replicate 3 '"') (first ++ escapeAll true 0 text)
  | literalLines => between (List.replicate 3 apostrophe) (first ++ text)

def textValue (text : String) : String :=
  String.ofList ((Quotes.of text.toList).around text.toList)

/-- A key is bare if it can be; it never takes several lines. -/
def keyText (key : String) : String :=
  let cs := key.toList
  if cs ≠ [] ∧ cs.all isBare then key
  else
    let coded := cs.any isControl
    let quotes : Quotes :=
      if ¬coded ∧ '\\' ∉ cs ∧ '"' ∉ cs then .basic
      else if ¬coded ∧ apostrophe ∉ cs then .literal
      else .basic
    String.ofList (quotes.around cs)

end Sequencer.Toml
