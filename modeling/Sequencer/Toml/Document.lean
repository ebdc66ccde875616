import Sequencer.Toml.Node
import Sequencer.Toml.Scalar

/-!
Reading a document: lines with headers and values, gathered into one table.
-/
namespace Sequencer.Toml

open Reader (char word maybe many)

/-- Blanks, line breaks and comments between the items of a list. -/
def gap : Reader Unit := do
  let _ ← many <|
    (do let _ ← Reader.someRun isBlank) <|> lineBreak <|> (do comment; lineBreak)

/-- The last item may have a comma, too. -/
def listOf (value : Reader Value) : Reader Value := do
  char '['
  let item := do
    gap
    let v ← value
    gap
    return v
  let items ← Reader.separated item ','
  if items ≠ [] then let _ ← maybe (char ',')
  gap
  char ']'
  return .list items

/-- The name is the last part of the key. -/
def assignmentOf (value : Reader Value) : Reader Assignment := do
  let key ← dottedKey
  char '='
  blanks
  return ⟨key.dropLast, key.getLastD "", ← value⟩

/-- A table on one line. -/
def inlineTableOf (value : Reader Value) : Reader Value := do
  char '\x7b'
  let entry := do
    let a ← assignmentOf value
    blanks
    return a
  let assignments ← Reader.separated entry ','
  blanks
  char '\x7d'
  match Entries.fill [] assignments with
  | some entries => return .table (entryValues entries)
  | none => failure

/-- A value with lists and tables in it down to a depth. -/
def value : Nat → Reader Value
  | 0 => scalar
  | depth + 1 => listOf (value depth) <|> inlineTableOf (value depth) <|> scalar

inductive Line where
  | empty
  | header (inList : Bool) (path : List String) (name : String)
  | assignment (a : Assignment)

/-- Nothing but a comment may follow on the same line. -/
def lineEnd : Reader Unit := do
  blanks
  let _ ← maybe comment
  lineBreak <|> Reader.atEnd

def headerOf (opening closing : String) (inList : Bool) : Reader Line := do
  word opening
  let key ← dottedKey
  word closing
  return .header inList key.dropLast (key.getLastD "")

def line : Reader Line := do
  blanks
  let content ← headerOf "[[" "]]" true <|> headerOf "[" "]" false
    <|> Line.assignment <$> assignmentOf (value (depthLimit - 1)) <|> pure .empty
  lineEnd
  return content

/-- The values before the first header, and the sections that the headers open. -/
def sections : List Line → List Assignment × List Section
  | [] => ([], [])
  | .empty :: rest => sections rest
  | .assignment a :: rest =>
    let (own, others) := sections rest
    (a :: own, others)
  | .header inList path name :: rest =>
    let (own, others) := sections rest
    ([], ⟨inList, path, name, own⟩ :: others)

def lines : Reader (List Line) := do
  let _ ← maybe (char '\uFEFF')
  let ls ← many line
  Reader.atEnd
  return ls

/-- The table that a document holds; none if it is no document. -/
def read? (text : String) : Option Value := do
  let (ls, _) ← lines text.toList
  let (own, others) := sections ls
  let entries ← others.foldlM Entries.addSection (← Entries.fill [] own)
  return .table (entryValues entries)

end Sequencer.Toml
