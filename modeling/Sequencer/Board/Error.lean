import Sequencer.Codec.Check
import Sequencer.Routing.Table
import Sequencer.Stream.Conflict
import Sequencer.Timeline.Tick

/-!
What can go wrong while a board is set up, edited and compiled.
-/
namespace Sequencer

open Decimal Text in
def TimeFault.message : TimeFault → String
  | notFinite => "time is not finite"
  | negative => "time is negative"
  | beyondRange => "time is beyond the 32-bit tick range"
  | emptyInterval start stop =>
    s!"end_pos {stop} should be strictly greater than start_pos {start}"
  | beforeEnd seconds => s!"the last instruction ends at {plain seconds} s"

/-- What a refused setting was meant for. -/
inductive Subject where
  | board (name : String)
  | rack (index : Nat) (board : String)
  | device (name : String)
  | synthesizer (name : String)
  | line (name device : String)
  deriving DecidableEq, Repr

def Subject.text : Subject → String
  | board name => s!"Board {name}"
  | rack index owner => s!"Rack {index} of board {owner}"
  | device name => s!"Device {name}"
  | synthesizer name => s!"DDS {name}"
  | line name owner => s!"Line {name} of {owner}"

/-- Why a setting was refused. -/
inductive SettingFault where
  | emptyName
  | rackCount (count : Nat)
  | busRate (rate : Float)
  | clockBelowBus (clock bus : Float)
  | strobePosition (position : Nat)
  | rampRate (rate : Float)
  | peerCount (peers : List String)
  | noSuchRack (count : Nat)
  | addressBeyond (address : Nat)
  | unaligned (address : Nat)
  | noLines (kind device : String)
  | bitBeyond (bit : Nat)
  | notALevel (default : Float)
  | bitUsed (bit : Nat) (line : String)

open Decimal Text in
def SettingFault.message : SettingFault → String
  | emptyName => "empty board name"
  | rackCount count => s!"{count} racks, expected 1 or 2"
  | busRate rate => s!"bus rate {plain rate}"
  | clockBelowBus clock bus => s!"board clock {plain clock} is below the bus rate {plain bus}"
  | strobePosition position => s!"strobe bit position {position} outside 23..=27"
  | rampRate rate => s!"ramp rate {plain rate}"
  | peerCount peers => s!"a secondary needs exactly one primary peer, got {quoteAll peers}"
  | noSuchRack count => s!"the board has {count} rack(s)"
  | addressBeyond address => s!"address {hex address 2} is beyond {hex Word.maxAddress 2}"
  | unaligned address => s!"base address {hex address 2} is not a multiple of 4"
  | noLines kind device => s!"{kind} {device} has no digital lines"
  | bitBeyond bit => s!"bit {bit} is beyond the 16-bit payload"
  | notALevel default => s!"default {plain default} is not a logic level"
  | bitUsed bit line => s!"bit {bit} is already used by {line}"

inductive BoardError where
  | timeConflict (report : ConflictReport)
  | firstSampleHasStrobe (board : String)
  | strobeModeConflict (board : String)
  | codecOutOfTolerance (channel : String) (value decoded tolerance : Float)
  | invalid (subject : Subject) (fault : SettingFault)
  | addressCollision (board : String) (rack address : Nat) (device other : String)
  | invalidTime (what : String) (time : Float) (fault : TimeFault)
  | duplicateInstruction (channel new existing : String)
  | missingArgument (shape key : String)
  | unknownBoard (name : String)
  | unknownClockLine (board name : String)
  | unknownDevice (board name : String)
  | unknownChannel (board name : String)
  | duplicateName (owner name : String)
  | wrongChannelKind (channel what : String)
  | tickOverflow (board : String) (tick : Nat)
  | codec (error : CodecError)
  | routing (error : RoutingError)

open Decimal Text in
def BoardError.message : BoardError → String
  | timeConflict report => report.text
  | firstSampleHasStrobe board => s!"Board {board}: the first sample carries an explicit strobe bit"
  | strobeModeConflict board =>
    s!"Board {board}: explicit strobe bits are not allowed while the strobe is auto-generated"
  | codecOutOfTolerance channel value decoded tolerance =>
    s!"Channel {channel}: value {plain value} is encoded as {plain decoded}, off by more than {plain tolerance}"
  | invalid subject fault => s!"{subject.text} is invalid: {fault.message}"
  | addressCollision board rack address device other =>
    s!"Board {board}, rack {rack}: address {hex address 2} of {device} is already used by {other}"
  | invalidTime what time fault => s!"Invalid time {plain time} for {what}: {fault.message}"
  | duplicateInstruction channel new existing =>
    s!"Channel {channel}: instruction {new} overlaps with instruction {existing}"
  | missingArgument shape key => s!"Instruction type {shape} requires argument \"{key}\""
  | unknownBoard name => s!"Board {name} not found"
  | unknownClockLine board name => s!"Clockline {name} not found on board {board}"
  | unknownDevice board name => s!"Device {name} not found on board {board}"
  | unknownChannel board name => s!"Channel {name} not found on board {board}"
  | duplicateName owner name => s!"Name {name} is already registered on {owner}"
  | wrongChannelKind channel what => s!"{what} cannot be applied to channel {channel}"
  | tickOverflow board tick =>
    s!"Tick {tick} of board {board} does not fit in the 32-bit time column"
  | codec error => error.message
  | routing error => error.message

/-- The short name of an error; errors of another part carry the name of that part. -/
def BoardError.kind : BoardError → String
  | timeConflict .. => "TimeConflict"
  | firstSampleHasStrobe .. => "FirstSampleHasStrobe"
  | strobeModeConflict .. => "StrobeModeConflict"
  | codecOutOfTolerance .. => "CodecOutOfTolerance"
  | invalid .. => "InvalidAddressOrChannel"
  | addressCollision .. => "AddressCollision"
  | invalidTime .. => "InvalidTime"
  | duplicateInstruction .. => "DuplicateInstruction"
  | missingArgument .. => "MissingArgument"
  | unknownBoard .. => "UnknownBoard"
  | unknownClockLine .. => "UnknownClockLine"
  | unknownDevice .. => "UnknownDevice"
  | unknownChannel .. => "UnknownChannel"
  | duplicateName .. => "DuplicateName"
  | wrongChannelKind .. => "WrongChannelKind"
  | tickOverflow .. => "TickOverflow"
  | codec error => s!"Codec.{error.kind}"
  | routing error => s!"IoMatrix.{error.kind}"

/-- The tick of a time, with an error that says what the time was for. -/
def tickFor (what : String) (rate time : Float) : Except BoardError Nat :=
  match tickOf rate time with
  | .ok tick => .ok tick
  | .error fault => .error (.invalidTime what time fault)

end Sequencer
