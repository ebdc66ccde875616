import Sequencer.Board.Channel
import Sequencer.Codec.Registry

/-!
Devices on the bus.

A digital bank has up to sixteen lines in one word, an analog output has one channel, and a
synthesizer has three channels at the first three of its four addresses.
-/
namespace Sequencer

inductive DeviceKind where
  | digitalBank | analogOutput | synthesizer
  deriving DecidableEq, Repr

def DeviceKind.name : DeviceKind → String
  | digitalBank => "digital bank"
  | analogOutput => "analog output"
  | synthesizer => "DDS"

/-- How many addresses a device takes. -/
def DeviceKind.span : DeviceKind → Nat
  | synthesizer => 4
  | _ => 1

/-- Where a device goes, and at which rates it is driven. -/
structure Slot where
  clockLine : String
  rack : Nat
  address : Nat
  busRate : Float
  rampStep : Nat

structure Device where
  name : String
  kind : DeviceKind
  slot : Slot
  channels : List Channel

namespace Device

def rack (d : Device) : Nat := d.slot.rack

def address (d : Device) : Nat := d.slot.address

/-- Whether one word drives several channels. -/
def sharesAddress (d : Device) : Bool := d.kind == .digitalBank

def addresses (d : Device) : List Nat := (List.range d.kind.span).map (d.address + ·)

def isEdited (d : Device) : Bool := d.channels.any Channel.isEdited

def clear (d : Device) : Device := { d with channels := d.channels.map Channel.clear }

def endTick (d : Device) : Nat := (d.channels.map Channel.endTick).foldl max 0

def hasChannel (d : Device) (name : String) : Bool := d.channels.any fun c => c.name == name

def channelAt (slot : Slot) (name : String) (kind : ChannelKind) (offset bit : Nat)
    (codec : Codec) (default : Float) : Channel :=
  { name, kind, codec, default
    rack := slot.rack
    place := ⟨slot.address + offset, bit⟩
    busRate := slot.busRate
    rampStep := max slot.rampStep 1
    bookings := [] }

/-- Fails if the last address is not a bus address. -/
def checkAddress (name : String) (kind : DeviceKind) (slot : Slot) : Except BoardError Unit :=
  let last := slot.address + kind.span - 1
  if Word.maxAddress < last then .error (.invalid (.device name) (.addressBeyond last))
  else .ok ()

/-- A bank without lines. -/
def digitalBank (name : String) (slot : Slot) : Except BoardError Device := do
  checkAddress name .digitalBank slot
  return ⟨name, .digitalBank, slot, []⟩

/-- An output with a channel of the same name. -/
def analogOutput (name : String) (slot : Slot) (codec : Codec) (default : Float) :
    Except BoardError Device := do
  checkAddress name .analogOutput slot
  return ⟨name, .analogOutput, slot, [channelAt slot name .analog 0 0 codec default]⟩

/-- A synthesizer at a multiple of four. -/
def synthesizer (name : String) (slot : Slot) (registry : Registry)
    (frequency amplitude phase : Float) : Except BoardError Device := do
  if slot.address % 4 ≠ 0 then
    throw (.invalid (.synthesizer name) (.unaligned slot.address))
  checkAddress name .synthesizer slot
  let channel (suffix tag : String) (kind : ChannelKind) (offset : Nat) (default : Float) :
      Except BoardError Channel :=
    match registry.find tag with
    | .ok codec => .ok (channelAt slot s!"{name}_{suffix}" kind offset 0 codec default)
    | .error e => .error (.codec e)
  let c0 ← channel "freq" "DDS_FREQ" .frequency 0 frequency
  let c1 ← channel "amp" "DDS_AMP" .amplitude 1 amplitude
  let c2 ← channel "phase" "DDS_PHASE" .phase 2 phase
  return ⟨name, .synthesizer, slot, [c0, c1, c2]⟩

/-- Adds a line to a digital bank. -/
def addLine (d : Device) (name : String) (bit : Nat) (codec : Codec) (default : Float) :
    Except BoardError Device :=
  let invalid (fault : SettingFault) : Except BoardError Device :=
    .error (.invalid (.line name d.name) fault)
  if d.kind ≠ .digitalBank then invalid (.noLines d.kind.name d.name)
  else if 16 ≤ bit then invalid (.bitBeyond bit)
  else if default != 0.0 && default != 1.0 then invalid (.notALevel default)
  else match d.channels.find? fun c => c.place.bit == bit with
    | some other => invalid (.bitUsed bit other.name)
    | none =>
      if d.hasChannel name then .error (.duplicateName d.name name)
      else .ok { d with
        channels := d.channels ++ [channelAt d.slot name .digital 0 bit codec default] }

end Device

end Sequencer
