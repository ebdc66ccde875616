import Sequencer.Board.Config
import Sequencer.Board.Device

/-!
Boards: their clocks, devices and markers.

Devices hang on clock lines and clock lines on pseudoclocks; `devices` lists them in the order of
that tree. On one rack no two devices share an address, and clock lines and devices have distinct
names.
-/
namespace Sequencer

/-- The markers of one rack, in the order of setting. -/
structure MarkerTrack where
  marks : List (Nat × Marker)
  deriving DecidableEq, Repr

namespace MarkerTrack

def empty : MarkerTrack := ⟨[]⟩

def mark (t : MarkerTrack) (tick : Nat) (marker : Marker) : MarkerTrack :=
  if (tick, marker) ∈ t.marks then t else ⟨t.marks ++ [(tick, marker)]⟩

def ticks (t : MarkerTrack) : List Nat := t.marks.map Prod.fst

/-- The markers at one tick. -/
def at? (t : MarkerTrack) (tick : Nat) : List Marker :=
  (t.marks.filter fun m => m.1 == tick).map Prod.snd

def hasStrobe (t : MarkerTrack) : Bool := t.marks.any fun m => m.2 == .strobe

/-- The tick after the last marker. -/
def endTick (t : MarkerTrack) : Nat := (t.ticks.map (· + 1)).foldl max 0

end MarkerTrack

structure PseudoClock where
  name : String
  clockLines : List String
  deriving DecidableEq, Repr

structure Board where
  config : BoardConfig
  registry : Registry
  pseudoClocks : List PseudoClock
  /-- The devices in the order of adding. -/
  placed : List Device
  /-- One track for each rack. -/
  tracks : List MarkerTrack
  /-- The options that the script has set. -/
  options : RunOptions

namespace Board

/-- A board without devices, with the standard codecs. -/
def new (config : BoardConfig) : Except BoardError Board := do
  config.validate
  return { config
           registry := .standard
           pseudoClocks := []
           placed := []
           tracks := List.replicate config.racks .empty
           options := .unset }

def name (b : Board) : String := b.config.name

def clockLines (b : Board) : List String := b.pseudoClocks.flatMap PseudoClock.clockLines

def devicesOn (b : Board) (clockLine : String) : List Device :=
  b.placed.filter fun d => d.slot.clockLine == clockLine

def devices (b : Board) : List Device := b.clockLines.flatMap b.devicesOn

def channels (b : Board) : List Channel := b.devices.flatMap Device.channels

def device? (b : Board) (name : String) : Option Device :=
  b.devices.find? fun d => d.name == name

def device (b : Board) (name : String) : Except BoardError Device :=
  match b.device? name with
  | some d => .ok d
  | none => .error (.unknownDevice b.name name)

def channel? (b : Board) (name : String) : Option Channel :=
  b.channels.find? fun c => c.name == name

def channel (b : Board) (name : String) : Except BoardError Channel :=
  match b.channel? name with
  | some c => .ok c
  | none => .error (.unknownChannel b.name name)

def duplicate (b : Board) (name : String) : BoardError :=
  .duplicateName s!"board {b.name}" name

def addPseudoClock (b : Board) (name : String) : Except BoardError Board :=
  if b.pseudoClocks.any fun p => p.name == name then .error (b.duplicate name)
  else .ok { b with pseudoClocks := b.pseudoClocks ++ [⟨name, []⟩] }

def addClockLine (b : Board) (pseudoClock name : String) : Except BoardError Board :=
  if name ∈ b.clockLines then .error (b.duplicate name)
  else if b.pseudoClocks.any fun p => p.name == pseudoClock then
    .ok { b with pseudoClocks := b.pseudoClocks.map fun p =>
            if p.name = pseudoClock then { p with clockLines := p.clockLines ++ [name] } else p }
  else .error (.unknownClockLine b.name pseudoClock)

/-- The slot at an address of a rack, if the board has the clock line and the rack. -/
def slot (b : Board) (clockLine : String) (rack address : Nat) : Except BoardError Slot :=
  if clockLine ∉ b.clockLines then .error (.unknownClockLine b.name clockLine)
  else if b.config.racks ≤ rack then
    .error (.invalid (.rack rack b.name) (.noSuchRack b.config.racks))
  else .ok ⟨clockLine, rack, address, b.config.busRate, b.config.rampStep⟩

/-- Whether the name of a new device, or one of its channels, is in use. -/
def nameTaken (b : Board) (d : Device) : Bool :=
  (b.device? d.name).isSome
    || d.channels.any fun c => (b.channel? c.name).isSome || (b.device? c.name).isSome

/-- The first device that shares an address with a new one, and that address. -/
def collision? (b : Board) (d : Device) : Option (Device × Nat) :=
  (b.devices.filter fun other => other.rack == d.rack).findSome? fun other =>
    (d.addresses.find? fun a => other.addresses.contains a).map fun a => (other, a)

def addDevice (b : Board) (d : Device) : Except BoardError Board :=
  if b.nameTaken d then .error (b.duplicate d.name)
  else match b.collision? d with
    | some (other, address) =>
      .error (.addressCollision b.name d.rack address d.name other.name)
    | none => .ok { b with placed := b.placed ++ [d] }

def codec (b : Board) (tag : String) : Except BoardError Codec :=
  match b.registry.find tag with
  | .ok c => .ok c
  | .error e => .error (.codec e)

def addDigitalBank (b : Board) (clockLine name : String) (rack address : Nat) :
    Except BoardError Board := do
  b.addDevice (← Device.digitalBank name (← b.slot clockLine rack address))

def addAnalogOutput (b : Board) (clockLine name : String) (rack address : Nat) (tag : String)
    (default : Float) : Except BoardError Board := do
  let slot ← b.slot clockLine rack address
  b.addDevice (← Device.analogOutput name slot (← b.codec tag) default)

def addSynthesizer (b : Board) (clockLine name : String) (rack address : Nat)
    (frequency amplitude phase : Float) : Except BoardError Board := do
  let slot ← b.slot clockLine rack address
  b.addDevice (← Device.synthesizer name slot b.registry frequency amplitude phase)

/-- Puts a device in the place of the one with its name. -/
def replaceDevice (b : Board) (d : Device) : Board :=
  { b with placed := b.placed.map fun other => if other.name = d.name then d else other }

/-- Adds a line with any codec to a device. -/
def addLine (b : Board) (device name : String) (bit : Nat) (codec : Codec) (default : Float) :
    Except BoardError Board := do
  return b.replaceDevice (← (← b.device device).addLine name bit codec default)

/-- Adds a line to a digital bank. -/
def addDigitalLine (b : Board) (bank name : String) (bit : Nat) (default : Bool) :
    Except BoardError Board := do
  if (b.channel? name).isSome || (b.device? name).isSome then
    throw (b.duplicate name)
  b.addLine bank name bit (← b.codec "DigitalOut") (if default then 1.0 else 0.0)

def registerCodec (b : Board) (codec : Codec) : Board :=
  { b with registry := b.registry.register codec }

/-- Edits the first channel of a name. -/
def editChannel (b : Board) (name : String) (edit : Channel → Except BoardError Channel) :
    Except BoardError Board :=
  match b.devices.find? fun d => d.hasChannel name with
  | none => .error (.unknownChannel b.name name)
  | some d => do
    let channels ← d.channels.mapM fun c => if c.name = name then edit c else .ok c
    return b.replaceDevice { d with channels }

/-- Attaches a marker to a tick of a rack. -/
def addMarker (b : Board) (rack : Nat) (time : Float) (marker : Marker) :
    Except BoardError Board := do
  let tick ← tickFor s!"{marker.name} marker on board {b.name}" b.config.busRate time
  if rack < b.tracks.length then
    return { b with tracks := b.tracks.modify rack fun t => t.mark tick marker }
  else throw (.invalid (.rack rack b.name) (.noSuchRack b.config.racks))

def setOptions (b : Board) (options : RunOptions) : Board :=
  { b with options := b.options.merge options }

def isEdited (b : Board) : Bool :=
  b.devices.any Device.isEdited || b.tracks.any fun t => !t.marks.isEmpty

/-- Takes back every instruction, marker and option of the script. -/
def clear (b : Board) : Board :=
  { b with
    placed := b.placed.map Device.clear
    tracks := b.tracks.map fun _ => .empty
    options := .unset }

/-- The tick after the last instruction or marker. -/
def endTick (b : Board) : Nat :=
  (b.devices.map Device.endTick ++ b.tracks.map MarkerTrack.endTick).foldl max 0

def endTime (b : Board) : Float := timeOf b.config.busRate b.endTick

end Board

end Sequencer
