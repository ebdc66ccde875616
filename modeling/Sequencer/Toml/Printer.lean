import Sequencer.Number.Decimal
import Sequencer.Settings.Value
import Sequencer.Toml.Quoted

/-!
Writing a table as a document.

The values of a table stand before the tables in it. A table has a header if it has values of its
own or is empty, and a header has an empty line before it unless the document begins with it.
-/
namespace Sequencer.Toml

/-- Lists of one item stay on the line, longer ones take a line for each item. -/
def listText (items : List String) : String :=
  match items with
  | [] => "[]"
  | [item] => "[" ++ item ++ "]"
  | _ => "[\n" ++ String.join (items.map fun item => "    " ++ item ++ ",\n") ++ "]"

/-- The text of a value on its own. Whole numbers have 64 bits with a sign, and the items of a list
are neither lists nor tables. -/
def scalarText? : Value → Option String
  | .boolean b => some (if b then "true" else "false")
  | .integer n =>
    let limit : Nat := 2 ^ 63
    if -(limit : Int) ≤ n ∧ n < limit then some (toString n) else none
  | .real x => some (if x.isNaN then "nan" else Decimal.pointed x)
  | .text s => some (textValue s)
  | .null | .list _ | .table _ => none

def valueText? : Value → Option String
  | .list items => listText <$> items.mapM scalarText?
  | v => scalarText? v

/-- A line for each value that is no table. -/
def ownLines? : List (String × Value) → Option (List String)
  | [] => some []
  | (_, .table _) :: rest => ownLines? rest
  | (name, v) :: rest => do
    return s!"{keyText name} = {← valueText? v}\n" :: (← ownLines? rest)

def headerLines (path : List String) : List String :=
  if path.isEmpty then [] else ["\n[" ++ String.intercalate "." (path.map keyText) ++ "]\n"]

mutual

def tableLines? (path : List String) (entries : List (String × Value)) : Option (List String) := do
  let own ← ownLines? entries
  let header := if own.isEmpty ∧ ¬entries.isEmpty then [] else headerLines path
  return header ++ own ++ (← innerLines? path entries)
termination_by (sizeOf entries, 1)

def innerLines? (path : List String) : List (String × Value) → Option (List String)
  | [] => some []
  | (name, .table inner) :: rest => do
    return (← tableLines? (path ++ [name]) inner) ++ (← innerLines? path rest)
  | _ :: rest => innerLines? path rest
termination_by entries => (sizeOf entries, 0)

end

/-- The document of a table; none if the table holds something that no document can hold. -/
def write? (v : Value) : Option String := do
  let text := String.join (← tableLines? [] (← v.entries?))
  return if text.startsWith "\n" then (text.drop 1).toString else text

end Sequencer.Toml
