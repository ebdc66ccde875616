import Sequencer.Bus.Word
import Sequencer.Keyed
import Sequencer.Routing.Route
import Sequencer.Text.Quoted

/-!
Routing tables: which source drives which input or output of the board.

Two registers hold four byte fields each. A field is the code of the source in its lower six bits
and the code of the level above them; zero is the default route of every destination. `encode` and
`decode` convert between a selection of routes and the registers, `merge` changes only the fields
of the destinations that are listed.
-/
namespace Sequencer

inductive Direction where
  | input | output
  deriving DecidableEq, Repr

def Direction.name : Direction → String
  | input => "input"
  | output => "output"

def Direction.ofName? : String → Option Direction
  | "input" => some .input
  | "output" => some .output
  | _ => none

inductive RoutingError where
  | unknownDestination (direction : Direction) (name : String) (known : List String)
  | unknownSource (destination source : String)
  | unknownLevel (destination level : String)
  | sourceNotAllowed (destination source : String)
  | levelNotAllowed (destination level : String)
  | invalidField (direction : Direction) (register field value : Nat)
  | badRoute (text : String)
  | defaultRoute (destination : String) (route : Route)
  deriving DecidableEq, Repr

def RoutingError.message : RoutingError → String
  | unknownDestination direction name known =>
    s!"Unknown {direction.name} destination \"{name}\". Known destinations are {Text.quoteAll known}"
  | unknownSource destination source => s!"Unknown source \"{source}\" for {destination}"
  | unknownLevel destination level => s!"Unknown level \"{level}\" for {destination}"
  | sourceNotAllowed destination source => s!"Source \"{source}\" cannot drive {destination}"
  | levelNotAllowed destination level => s!"Level \"{level}\" is not allowed on {destination}"
  | invalidField direction register field value =>
    s!"Invalid {direction.name} routing field {Text.hex value 2} in register {register}, byte {field}"
  | badRoute text =>
    s!"Cannot parse route \"{text}\": expected \"source\" or \"source:level\""
  | defaultRoute destination route =>
    s!"\"{route.text}\" is the default route of {destination}; leave {destination} out instead"

/-- The short name of an error. -/
def RoutingError.kind : RoutingError → String
  | unknownDestination .. => "UnknownDestination"
  | unknownSource .. => "UnknownSource"
  | unknownLevel .. => "UnknownLevel"
  | sourceNotAllowed .. => "SourceNotAllowed"
  | levelNotAllowed .. => "LevelNotAllowed"
  | invalidField .. => "InvalidField"
  | badRoute .. => "BadRoute"
  | defaultRoute .. => "DefaultRoute"

def Route.parse (text : String) : Except RoutingError Route :=
  match Route.parse? text with
  | some route => .ok route
  | none => .error (.badRoute text)

/-- The two routing registers of one direction. -/
structure Registers where
  first : Word
  second : Word
  deriving DecidableEq, Repr

namespace Registers

def zero : Registers := ⟨0, 0⟩

def get (r : Registers) (index : Nat) : Word := if index = 0 then r.first else r.second

def set (r : Registers) (index : Nat) (word : Word) : Registers :=
  if index = 0 then { r with first := word } else { r with second := word }

/-- All bits of a byte field. -/
def fieldMask (field : Nat) : Word := (0xFF : Word) <<< (8 * field)

def readField (r : Registers) (index field : Nat) : Nat :=
  ((r.get index).extractLsb' (8 * field) 8).toNat

def writeField (r : Registers) (index field value : Nat) : Registers :=
  r.set index
    ((r.get index &&& ~~~fieldMask field) ||| (BitVec.ofNat 32 (value % 2 ^ 8) <<< (8 * field)))

end Registers

/-- The field of a destination and the codes it takes. -/
structure Destination where
  register : Nat
  field : Nat
  sources : List Nat
  levels : List Nat
  deriving DecidableEq, Repr

/-- Routes by destination, in the order of listing. -/
abbrev Selection := Keyed Route

structure RoutingTable where
  direction : Direction
  sources : Keyed Nat
  levels : Keyed Nat
  destinations : Keyed Destination
  deriving DecidableEq

namespace RoutingTable

def destination (t : RoutingTable) (name : String) : Except RoutingError Destination :=
  match t.destinations.get? name with
  | some d => .ok d
  | none => .error (.unknownDestination t.direction name t.destinations.keys)

/-- The field value of a route, if the destination takes it. -/
def fieldOf (t : RoutingTable) (name : String) (route : Route) : Except RoutingError Nat := do
  let d ← t.destination name
  match t.sources.get? route.source, t.levels.get? route.level with
  | none, _ => .error (.unknownSource name route.source)
  | some _, none => .error (.unknownLevel name route.level)
  | some source, some level =>
    if source ∉ d.sources then .error (.sourceNotAllowed name route.source)
    else if level ∉ d.levels then .error (.levelNotAllowed name route.level)
    else .ok (source ||| level <<< 6)

/-- Sets the fields of the listed destinations. A default route clears its field. -/
def merge (t : RoutingTable) (registers : Registers) (selection : Selection) :
    Except RoutingError Registers :=
  selection.entries.foldlM (fun r (name, route) => do
    let value ← t.fieldOf name route
    let d ← t.destination name
    return r.writeField d.register d.field value) registers

/-- The registers of a selection. A default route is refused, because reading the registers would
leave it out. -/
def encode (t : RoutingTable) (selection : Selection) : Except RoutingError Registers := do
  for (name, route) in selection.entries do
    if (← t.fieldOf name route) = 0 then
      throw (.defaultRoute name route)
  t.merge .zero selection

def nameOf (names : Keyed Nat) (code : Nat) : Option String :=
  (names.entries.find? fun e => e.2 == code).map Prod.fst

/-- The route of a field value, if the destination can hold it. -/
def routeOf (t : RoutingTable) (d : Destination) (field : Nat) : Option Route :=
  let source := field % 64
  let level := field / 64
  if source ∈ d.sources ∧ level ∈ d.levels then do
    return ⟨← nameOf t.sources source, ← nameOf t.levels level⟩
  else none

/-- The route in the field of one destination; `none` for the default route. -/
def decodeField (t : RoutingTable) (registers : Registers) (d : Destination) :
    Except RoutingError (Option Route) :=
  let field := registers.readField d.register d.field
  if field = 0 then .ok none
  else match t.routeOf d field with
    | some route => .ok (some route)
    | none => .error (.invalidField t.direction d.register d.field field)

/-- All bits of one register that belong to some destination. -/
def usedMask (t : RoutingTable) (register : Nat) : Word :=
  t.destinations.values.foldl
    (fun w d => if d.register = register then w ||| Registers.fieldMask d.field else w) 0

/-- Fails if a register has bits outside the fields of the table. -/
def checkStray (t : RoutingTable) (registers : Registers) (register : Nat) :
    Except RoutingError Unit :=
  let stray := registers.get register &&& ~~~t.usedMask register
  if stray = 0 then .ok ()
  else
    let field := ([0, 1, 2, 3].find? fun f => stray &&& Registers.fieldMask f != 0).getD 0
    .error (.invalidField t.direction register field (registers.readField register field))

/-- The selection that the registers hold, in the order of the table. -/
def decode (t : RoutingTable) (registers : Registers) : Except RoutingError Selection := do
  let routes ← t.destinations.entries.mapM fun (name, d) =>
    return (name, ← t.decodeField registers d)
  t.checkStray registers 0
  t.checkStray registers 1
  return Keyed.ofList (routes.filterMap fun (name, route) => route.map fun r => (name, r))

/-- Whether a listed destination is driven by one of the sources, or by any but the default one. -/
def isEnabled (t : RoutingTable) (destinations : List String) (registers : Registers)
    (sources : Option (List String)) : Except RoutingError Bool := do
  let wanted ← sources.mapM fun names => names.mapM fun name =>
    match t.sources.get? name with
    | some code => Except.ok code
    | none => .error (.unknownSource (String.intercalate "," destinations) name)
  let rec search : List String → Except RoutingError Bool
    | [] => .ok false
    | name :: rest => do
      let d ← t.destination name
      let source := registers.readField d.register d.field % 64
      let hit := match wanted with
        | some codes => codes.contains source
        | none => source != 0
      if hit then return true else search rest
  search destinations

end RoutingTable

end Sequencer
