import Sequencer.Settings.Value

/-!
The tables of a document while it is read.

A table comes into being by its own header, by a dotted key, or because the header of another table
leads through it. Only the last kind may still get a header of its own, and only the last two may
grow by dotted keys.
-/
namespace Sequencer.Toml

inductive Origin where
  | passed | dotted | header
  deriving DecidableEq, Repr

inductive Node where
  | value (v : Value)
  | table (origin : Origin) (entries : List (String × Node))
  | tables (items : List (List (String × Node)))

abbrev Entries := List (String × Node)

/-- A value with the path of its key: the tables that the key leads through, and its own name. -/
structure Assignment where
  path : List String
  name : String
  value : Value

/-- A header and the values that follow it. `inList` is set if it opens a new item of a list of
tables. -/
structure Section where
  inList : Bool
  path : List String
  name : String
  assignments : List Assignment

namespace Entries

/-- Changes the entry of a name in its place; a new one goes to the end. -/
def update (name : String) (change : Option Node → Option Node) : Entries → Option Entries
  | [] => do return [(name, ← change none)]
  | (other, node) :: rest =>
    if other = name then do return (name, ← change (some node)) :: rest
    else do return (other, node) :: (← update name change rest)

/-- Changes the table at a path, which gets the missing tables on its way. The last item of a list
of tables stands for the list. -/
def inside (fresh : Origin) (change : Origin → Entries → Option Entries) :
    List String → Origin → Entries → Option Entries
  | [], origin, entries => change origin entries
  | name :: path, _, entries => update name (fun
    | none => (inside fresh change path fresh []).map (.table fresh)
    | some (.value _) => none
    | some (.table origin inner) =>
      if fresh = .dotted ∧ origin = .header then none
      else (inside fresh change path origin inner).map (.table origin)
    | some (.tables items) => do
      let last ← inside fresh change path .header (← items.getLast?)
      return .tables (items.dropLast ++ [last])) entries

/-- A name is given once. A table that only headers lead through takes no dotted key. -/
def assign (entries : Entries) (a : Assignment) : Option Entries :=
  inside .dotted (fun origin inner =>
    if a.path ≠ [] ∧ origin ≠ .dotted then none
    else if (inner.lookup a.name).isSome then none
    else some (inner ++ [(a.name, .value a.value)])) a.path .header entries

def fill (entries : Entries) (assignments : List Assignment) : Option Entries :=
  assignments.foldlM assign entries

/-- A table that was passed before moves to the place of its header. -/
def addTable (name : String) (assignments : List Assignment) (entries : Entries) :
    Option Entries := do
  let known ← match entries.lookup name with
    | none => some []
    | some (.table .passed inner) => some inner
    | some _ => none
  let others := entries.filter fun e => e.1 ≠ name
  return others ++ [(name, .table .header (← fill known assignments))]

def addItem (name : String) (assignments : List Assignment) (entries : Entries) :
    Option Entries :=
  entries.update name fun
    | none => (fill [] assignments).map fun item => .tables [item]
    | some (.tables items) => (fill [] assignments).map fun item => .tables (items ++ [item])
    | some _ => none

def addSection (entries : Entries) (s : Section) : Option Entries :=
  let add := if s.inList then addItem else addTable
  inside .passed (fun _ inner => add s.name s.assignments inner) s.path .header entries

end Entries

mutual

def Node.toValue : Node → Value
  | .value v => v
  | .table _ entries => .table (entryValues entries)
  | .tables items => .list (itemValues items)

def entryValues : Entries → List (String × Value)
  | [] => []
  | (name, node) :: rest => (name, node.toValue) :: entryValues rest

def itemValues : List Entries → List Value
  | [] => []
  | item :: rest => .table (entryValues item) :: itemValues rest

end

end Sequencer.Toml
