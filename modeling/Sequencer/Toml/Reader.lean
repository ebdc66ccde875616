/-!
Readers of a text: each takes what it understands from the front and leaves the rest, or fails.
-/
namespace Sequencer.Toml

abbrev Reader := StateT (List Char) Option

namespace Reader
variable {α : Type}

def satisfying (accepts : Char → Bool) : Reader Char
  | [] => none
  | c :: rest => if accepts c then some (c, rest) else none

def next : Reader Char := satisfying fun _ => true

def char (c : Char) : Reader Unit := do let _ ← satisfying (· == c)

def chars : List Char → Reader Unit
  | [] => pure ()
  | c :: rest => do char c; chars rest

def word (text : String) : Reader Unit := chars text.toList

/-- As many characters of a class as there are. -/
def run (accepts : Char → Bool) : Reader (List Char) :=
  fun cs => some (cs.takeWhile accepts, cs.dropWhile accepts)

def someRun (accepts : Char → Bool) : Reader (List Char) := do
  return (← satisfying accepts) :: (← run accepts)

def atEnd : Reader Unit
  | [] => some ((), [])
  | _ => none

def maybe (r : Reader α) : Reader (Option α) := some <$> r <|> pure none

/-- What a reader takes, read again and again until it fails or takes nothing. -/
def many (r : Reader α) : Reader (List α) := fun cs => some (go cs)
where
  go (cs : List Char) : List α × List Char :=
    match r cs with
    | none => ([], cs)
    | some (a, rest) =>
      if _h : rest.length < cs.length then
        let (others, rest) := go rest
        (a :: others, rest)
      else ([], cs)
  termination_by cs.length

/-- Items with a mark between each two of them. -/
def separated (item : Reader α) (mark : Char) : Reader (List α) := do
  match ← maybe item with
  | none => return []
  | some first => return first :: (← many do char mark; item)

/-- The text that a reader takes. -/
def taken (r : Reader α) : Reader String := fun cs => do
  let (_, rest) ← r cs
  return (String.ofList (cs.take (cs.length - rest.length)), rest)

end Reader

/-- Line breaks are not blank. -/
def isBlank (c : Char) : Bool := c == ' ' || c == '\t'

/-- Controls may stand nowhere, with the exception of tabs and line breaks. -/
def isControl (c : Char) : Bool := (c.toNat < 0x20 && c != '\t') || c.toNat == 0x7F

def blanks : Reader Unit := do let _ ← Reader.run isBlank

def lineBreak : Reader Unit := Reader.word "\n" <|> Reader.word "\r\n"

/-- From a number sign to the end of the line. -/
def comment : Reader Unit := do
  Reader.char '#'
  let _ ← Reader.run fun c => !isControl c

end Sequencer.Toml
