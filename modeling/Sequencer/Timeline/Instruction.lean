import Sequencer.Keyed
import Sequencer.Number.Decimal
import Sequencer.Text.Layout

/-!
Instructions: what a channel does over an interval of time.

An instruction has a shape and named arguments. Arguments that a shape does not know are kept and
written, but have no effect.
-/
namespace Sequencer

inductive Shape where
  | constant | ramp | sine
  deriving DecidableEq, Repr

namespace Shape

def name : Shape → String
  | constant => "CONST"
  | ramp => "LINRAMP"
  | sine => "SINE"

def ofName? (name : String) : Option Shape :=
  [constant, ramp, sine].find? fun s => s.name == name

def required : Shape → List String
  | constant => ["value"]
  | ramp => ["start_val", "end_val", "start_time", "end_time"]
  | sine => ["freq"]

end Shape

structure Instruction where
  shape : Shape
  arguments : Keyed Float

namespace Instruction

/-- The first argument that the shape needs and does not have. -/
def missing (shape : Shape) (arguments : Keyed Float) : Option String :=
  shape.required.find? fun key => !arguments.keys.contains key

def argument (i : Instruction) (key : String) (default : Float) : Float :=
  (i.arguments.get? key).getD default

def isConstant (i : Instruction) : Bool := i.shape == .constant

/-- The value at a time in seconds. A ramp without a span stands at its end. -/
def valueAt (i : Instruction) (t : Float) : Float :=
  match i.shape with
  | .constant => i.argument "value" 0.0
  | .ramp =>
    let startVal := i.argument "start_val" 0.0
    let endVal := i.argument "end_val" 0.0
    let startTime := i.argument "start_time" 0.0
    let span := i.argument "end_time" 0.0 - startTime
    if span == 0.0 then endVal
    else startVal + (endVal - startVal) * (t - startTime) / span
  | .sine =>
    let amplitude := i.argument "amplitude" 1.0
    let offset := i.argument "offset" 0.0
    let phase := i.argument "phase" 0.0
    (2.0 * 3.141592653589793 * i.argument "freq" 0.0 * t + phase).sin * amplitude + offset

def ofConstant (value : Float) : Instruction := ⟨.constant, Keyed.ofList [("value", value)]⟩

def ofRamp (startVal endVal startTime endTime : Float) : Instruction :=
  ⟨.ramp, Keyed.ofList [("start_val", startVal), ("end_val", endVal), ("start_time", startTime),
    ("end_time", endTime)]⟩

/-- Arguments that are not given take their defaults when a value is computed. -/
def ofSine (freq : Float) (amplitude phase offset : Option Float) : Instruction :=
  ⟨.sine, Keyed.ofList <| [("freq", some freq), ("amplitude", amplitude), ("phase", phase),
    ("offset", offset)].filterMap fun (key, value) => value.map fun v => (key, v)⟩

/-- The shape and the arguments in alphabetical order. -/
def text (i : Instruction) : String :=
  let sorted := i.arguments.entries.mergeSort fun a b => !(b.1 < a.1)
  let arguments := sorted.map fun (key, value) => s!"{key}: {Decimal.plain value}"
  s!"[{i.shape.name}, \x7b{Text.commaSeparated arguments}\x7d]"

end Instruction

/-- An instruction on the ticks from `start` up to, but not including, `stop`. It is sampled every
`step` ticks; afterwards its last value stays if `keep` is set. -/
structure Booking where
  start : Nat
  stop : Nat
  step : Nat
  keep : Bool
  instruction : Instruction
  start_lt_stop : start < stop
  step_pos : 0 < step

namespace Booking

/-- A booking of a non-empty interval; a step of zero counts as one. -/
def of? (start stop step : Nat) (keep : Bool) (instruction : Instruction) : Option Booking :=
  if h : start < stop then
    some ⟨start, stop, max step 1, keep, instruction, h, by omega⟩
  else none

/-- The multiples of `step` from `start` on that lie before `stop`. -/
def gridTicks (start stop step : Nat) : List Nat :=
  (List.range ((stop - start + step - 1) / step)).map fun i => start + i * step

/-- The ticks at which the instruction is sampled. -/
def ticks (b : Booking) : List Nat :=
  if b.instruction.isConstant then [b.start] else gridTicks b.start b.stop b.step

def text (b : Booking) : String :=
  s!"InstrBook({b.instruction.text}, {b.start}-{b.stop}, {b.keep})"

end Booking

end Sequencer
