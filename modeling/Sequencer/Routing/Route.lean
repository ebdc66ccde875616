import Sequencer.Text.Blank

/-!
Routes: a source, and the level at which it acts.

A route is written as the name of the source, followed by a colon and the level unless that is the
usual one. Reading allows white space around both names.
-/
namespace Sequencer

structure Route where
  source : String
  level : String
  deriving DecidableEq, Repr

namespace Route

def usualLevel : String := "level"

def text (r : Route) : String :=
  if r.level = usualLevel then r.source else r.source ++ ":" ++ r.level

def isLevelChar (c : Char) : Bool := c.isAlpha || c == '_'

def isSourceChar (c : Char) : Bool := isLevelChar c || c.isDigit

/-- Nothing but a colon, a level and white space; or nothing at all. -/
def parseLevel? : List Char → Option String
  | [] => some usualLevel
  | ':' :: rest =>
    let rest := rest.dropWhile Text.isBlank
    let level := rest.takeWhile isLevelChar
    if level.isEmpty || !(rest.dropWhile isLevelChar).all Text.isBlank then none
    else some (String.ofList level)
  | _ => none

def parseChars? (chars : List Char) : Option Route :=
  let chars := chars.dropWhile Text.isBlank
  let rest := (chars.dropWhile isSourceChar).dropWhile Text.isBlank
  match chars.takeWhile isSourceChar with
  | [] => none
  | c :: source =>
    if c.isDigit then none
    else (parseLevel? rest).map fun level => ⟨String.ofList (c :: source), level⟩

def parse? (text : String) : Option Route := parseChars? text.toList

end Route

end Sequencer
