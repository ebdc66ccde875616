import Sequencer.Bus.Word

/-!
Configuration values: what a configuration document holds, and how typed fields are read from it.

A record is read from a table, in which unknown names are ignored, or from a list of its fields in
their order. A field that is not there keeps its default.
-/
namespace Sequencer

inductive Value where
  | null
  | boolean (value : Bool)
  | integer (value : Int)
  | real (value : Float)
  | text (value : String)
  | list (items : List Value)
  | table (entries : List (String × Value))

namespace Value

instance : Inhabited Value := ⟨null⟩

def boolean? : Value → Option Bool
  | .boolean b => some b
  | _ => none

/-- A whole number below a limit. -/
def natBelow? (limit : Nat) : Value → Option Nat
  | .integer n => if 0 ≤ n ∧ n.toNat < limit then some n.toNat else none
  | _ => none

def nat64? : Value → Option Nat := natBelow? (2 ^ 64)

def nat32? : Value → Option Nat := natBelow? (2 ^ 32)

def word? (v : Value) : Option Word := v.nat32?.map (BitVec.ofNat 32)

/-- The low 32 bits of a whole number. -/
def lowWord? (v : Value) : Option Word := v.nat64?.map (BitVec.ofNat 32)

/-- Whole numbers are read as reals, too. -/
def real? : Value → Option Float
  | .integer n => some (Float.ofInt n)
  | .real x => some x
  | _ => none

/-- A real, also by one of the texts for the reals that have no digits. -/
def number? : Value → Option Float
  | .text "inf" => some (1.0 / 0.0)
  | .text "-inf" => some (-1.0 / 0.0)
  | .text "nan" => some (0.0 / 0.0)
  | .text "-0" => some (-0.0)
  | v => v.real?

def text? : Value → Option String
  | .text s => some s
  | _ => none

def entries? : Value → Option (List (String × Value))
  | .table entries => some entries
  | _ => none

def list? {α : Type} (read : Value → Option α) : Value → Option (List α)
  | .list items => items.mapM read
  | _ => none

def texts? : Value → Option (List String) := list? text?

def pair? {α β : Type} (first : Value → Option α) (second : Value → Option β) :
    Value → Option (α × β)
  | .list [a, b] => do return (← first a, ← second b)
  | _ => none

/-- The entry of a name in a table; `null` stands for no entry. -/
def get? (v : Value) (name : String) : Option Value :=
  match v with
  | .table entries => match entries.lookup name with
    | some .null => none
    | entry => entry
  | _ => none

/-- Reads an entry that must be there. -/
def need? {α : Type} (v : Value) (name : String) (read : Value → Option α) : Option α :=
  v.get? name >>= read

/-- Reads an entry, or takes the default if it is not there. -/
def orElse? {α : Type} (v : Value) (name : String) (default : α) (read : Value → Option α) :
    Option α :=
  match v.get? name with
  | some entry => read entry
  | none => some default

/-- Reads an entry that may be missing. -/
def maybe? {α : Type} (v : Value) (name : String) (read : Value → Option α) : Option (Option α) :=
  v.orElse? name none fun entry => (read entry).map some

def ofWord (w : Word) : Value := .integer w.toNat

/-- A value that may be left open with `null`. -/
def optional? {α : Type} (read : Value → Option α) : Value → Option (Option α)
  | .null => some none
  | v => (read v).map some

/-- The named fields of a record; `none` if the value is no record of these fields. -/
def fields? (names : List String) : Value → Option (List (String × Value))
  | .table entries => some entries
  | .list items => if items.length ≤ names.length then some (names.zip items) else none
  | _ => none

end Value

/-- Reads a field, which keeps its default if it is not there. -/
def readField? {α : Type} (fields : List (String × Value)) (name : String) (default : α)
    (read : Value → Option α) : Option α :=
  match fields.lookup name with
  | some v => read v
  | none => some default

end Sequencer
