import Sequencer.Board.Error
import Sequencer.Timeline.Instruction

/-!
Channels: one logical output each, with the instructions that were added to it.

Bookings are kept in order of their start and never overlap. `samples` turns them into the values
that are written, each with its tick.
-/
namespace Sequencer

inductive ChannelKind where
  | digital | analog | frequency | amplitude | phase
  deriving DecidableEq, Repr

def ChannelKind.name : ChannelKind → String
  | digital => "DigitalOut"
  | analog => "AnalogOut"
  | frequency => "DDS frequency"
  | amplitude => "DDS amplitude"
  | phase => "DDS phase"

/-- An instruction with every argument that its shape needs. -/
def Instruction.build (shape : Shape) (arguments : Keyed Float) : Except BoardError Instruction :=
  match missing shape arguments with
  | some key => .error (.missingArgument shape.name key)
  | none => .ok ⟨shape, arguments⟩

/-- A booking of a non-empty interval. -/
def Booking.build (start stop step : Nat) (keep : Bool) (instruction : Instruction) :
    Except BoardError Booking :=
  match of? start stop step keep instruction with
  | some booking => .ok booking
  | none =>
    .error (.invalidTime s!"instruction {instruction.text}" (Float.ofNat stop)
      (.emptyInterval start stop))

structure Channel where
  name : String
  kind : ChannelKind
  rack : Nat
  place : Place
  codec : Codec
  busRate : Float
  rampStep : Nat
  /-- The value while nothing is written. -/
  default : Float
  bookings : List Booking

/-- How long an instruction lasts, and whether its last value stays. Without a duration it is a
single write whose value stays. -/
structure Hold where
  duration : Float
  keep : Bool

namespace Channel

def isEdited (c : Channel) : Bool := !c.bookings.isEmpty

def clear (c : Channel) : Channel := { c with bookings := [] }

/-- The tick after the last instruction. -/
def endTick (c : Channel) : Nat := (c.bookings.getLast?.map Booking.stop).getD 0

def endTime (c : Channel) : Float := timeOf c.busRate c.endTick

/-- The booking that stands in the way of a new one: first the next one, then the one before. -/
def clash? (bookings : List Booking) (new : Booking) : Option Booking :=
  let next := bookings.find? fun b => new.start ≤ b.start
  let previous := (bookings.filter fun b => b.start < new.start).getLast?
  (next.filter fun b => b.start < new.stop) <|> (previous.filter fun b => new.start < b.stop)

/-- Inserts in order of the start. -/
def insertBooking (new : Booking) : List Booking → List Booking
  | [] => [new]
  | b :: rest => if new.start < b.start then new :: b :: rest else b :: insertBooking new rest

/-- Adds a booking, unless it overlaps another one. -/
def book (c : Channel) (new : Booking) : Except BoardError Channel :=
  match clash? c.bookings new with
  | some existing => .error (.duplicateInstruction c.name new.text existing.text)
  | none => .ok { c with bookings := insertBooking new c.bookings }

/-- The interval of ticks of an instruction. -/
def interval (c : Channel) (time : Float) (hold : Option Hold) :
    Except BoardError (Nat × Nat × Bool) := do
  let what := s!"channel {c.name}"
  let start ← tickFor what c.busRate time
  match hold with
  | none => return (start, start + 1, true)
  | some hold => return (start, start + (← tickFor what c.busRate hold.duration), hold.keep)

def add (c : Channel) (instruction : Instruction) (time : Float) (hold : Option Hold) :
    Except BoardError Channel := do
  let (start, stop, keep) ← c.interval time hold
  c.book (← Booking.build start stop c.rampStep keep instruction)

def valueAt (c : Channel) (b : Booking) (tick : Nat) : Float :=
  b.instruction.valueAt (timeOf c.busRate tick)

/-- The sample at the end of a booking: back to the default, or the value reached. There is none
where the next booking starts, and none where a constant stays. -/
def closing (c : Channel) (b : Booking) (next : Option Booking) : List (Nat × Float) :=
  if next.any fun n => n.start == b.stop then []
  else if !b.keep then [(b.stop, c.default)]
  else if b.instruction.isConstant then []
  else [(b.stop, c.valueAt b b.stop)]

def samplesOf (c : Channel) : List Booking → List (Nat × Float)
  | [] => []
  | b :: rest =>
    b.ticks.map (fun tick => (tick, c.valueAt b tick)) ++ c.closing b rest.head?
      ++ c.samplesOf rest

/-- The written values, in order of their ticks. -/
def samples (c : Channel) : List (Nat × Float) := c.samplesOf c.bookings

def finalValue (c : Channel) : Float := (c.samples.getLast?.map Prod.snd).getD c.default

end Channel

end Sequencer
