import Sequencer.Codec.Fields
import Sequencer.Experiment
import Sequencer.Settings.Fields

/-!
Scripts: the edits of an experiment as configuration values.

Every edit is a table that names what to do and the arguments. The board is `main` unless it is
named, the rack is the first.
-/
namespace Sequencer

/-- An instruction by its type and arguments; it may lack some that its type needs. -/
def Instruction.ofValue? (v : Value) : Option (Except BoardError Instruction) := do
  let shape ← v.need? "type" Value.text? >>= Shape.ofName?
  let arguments ← (← v.orElse? "args" [] Value.entries?).mapM fun (name, x) =>
    return (name, ← x.number?)
  return Instruction.build shape (Keyed.ofList arguments)

namespace Script

/-- What an edit does to the experiment. -/
abbrev Edit := Experiment → Except BoardError Experiment

def boardOf (v : Value) : Option String := v.orElse? "board" "main" Value.text?

private def name? (v : Value) (key : String) : Option String := v.need? key Value.text?

private def real? (v : Value) (key : String) : Option Float := v.need? key Value.number?

private def nat? (v : Value) (key : String) : Option Nat := v.orElse? key 0 Value.nat64?

private def hold? (v : Value) : Option Hold := do
  return ⟨← real? v "duration", ← v.orElse? "keep" false Value.boolean?⟩

/-- Edits that add to a board. -/
def addition? (what : String) (v : Value) : Option (Board → Except BoardError Board) := do
  match what with
  | "add_pseudoclock" =>
    let name ← name? v "name"
    return fun b => b.addPseudoClock name
  | "add_clockline" =>
    let name ← name? v "name"
    let clock ← name? v "pseudoclock"
    return fun b => b.addClockLine clock name
  | "add_digital_bank" =>
    let line ← name? v "clockline"
    let name ← name? v "name"
    let rack ← nat? v "rack"
    let address ← nat? v "address"
    return fun b => b.addDigitalBank line name rack address
  | "add_digital_line" =>
    let bank ← name? v "bank"
    let name ← name? v "name"
    let bit ← nat? v "bit"
    let default ← v.orElse? "default" false Value.boolean?
    return fun b => b.addDigitalLine bank name bit default
  | "add_analog" =>
    let line ← name? v "clockline"
    let name ← name? v "name"
    let rack ← nat? v "rack"
    let address ← nat? v "address"
    let codec ← name? v "codec"
    let default ← v.orElse? "default" 0.0 Value.number?
    return fun b => b.addAnalogOutput line name rack address codec default
  | "add_dds" =>
    let line ← name? v "clockline"
    let name ← name? v "name"
    let rack ← nat? v "rack"
    let address ← nat? v "address"
    match ← v.orElse? "defaults" [0.0, 0.0, 0.0] (Value.list? Value.number?) with
    | [f, a, p] => return fun b => b.addSynthesizer line name rack address f a p
    | _ => none
  | _ => none

/-- Edits that write on a channel. -/
def instruction? (what : String) (v : Value) : Option Edit := do
  let board ← boardOf v
  let t ← real? v "t"
  match what with
  | "constant" =>
    let channel ← name? v "channel"
    let value ← real? v "value"
    let hold ← hold? v
    return fun e => e.constant board channel t value (some hold)
  | "go_constant" =>
    let channel ← name? v "channel"
    let value ← real? v "value"
    return fun e => e.constant board channel t value none
  | "high" =>
    let channel ← name? v "channel"
    let duration ← real? v "duration"
    return fun e => e.high board channel t duration
  | "low" =>
    let channel ← name? v "channel"
    let duration ← real? v "duration"
    return fun e => e.low board channel t duration
  | "go_high" =>
    let channel ← name? v "channel"
    return fun e => e.goHigh board channel t
  | "go_low" =>
    let channel ← name? v "channel"
    return fun e => e.goLow board channel t
  | "linramp" =>
    let channel ← name? v "channel"
    let first ← real? v "start"
    let last ← real? v "end"
    let hold ← hold? v
    return fun e => e.ramp board channel t first last hold
  | "sine" =>
    let channel ← name? v "channel"
    let hold ← hold? v
    let frequency ← real? v "freq"
    let amplitude ← v.maybe? "amplitude" Value.number?
    let phase ← v.maybe? "phase" Value.number?
    let offset ← v.maybe? "offset" Value.number?
    return fun e => e.sine board channel t hold frequency amplitude phase offset
  | "add_instr" =>
    let channel ← name? v "channel"
    let duration ← v.maybe? "duration" Value.number?
    let keep ← v.orElse? "keep" false Value.boolean?
    let instruction ← v.need? "instr" Instruction.ofValue?
    return fun e => do
      e.addInstruction board channel (← instruction) t (duration.map fun d => ⟨d, keep⟩)
  | "freq" | "amp" | "phase" =>
    let synthesizer ← name? v "dds"
    let value ← real? v "value"
    return fun e => match what with
      | "freq" => e.frequency board synthesizer t value
      | "amp" => e.amplitude board synthesizer t value
      | _ => e.phase board synthesizer t value
  | _ => none

/-- The marker that an edit sets. -/
def marker? (what : String) (v : Value) : Option Marker :=
  match what with
  | "stop" => some .stop
  | "irq" => some .interrupt
  | "strobe" => some .strobe
  | "nop" => some .nop
  | "special" => v.need? "bit" Value.text? >>= Marker.ofName?
  | _ => none

/-- The edit that a table describes. -/
def edit? (v : Value) : Option Edit := do
  let what ← v.need? "do" Value.text?
  let board ← boardOf v
  match what with
  | "clear_edit_cache" => return fun e => .ok e.clear
  | "set_worker_options" =>
    let options ← RunOptions.ofValue? ((v.get? "options").getD .null)
    return fun e => e.editBoard board fun b => .ok (b.setOptions options)
  | _ =>
    if let some addition := addition? what v then
      return fun e => e.editBoard board addition
    else if let some marker := marker? what v then
      let t ← real? v "t"
      let rack ← nat? v "rack"
      return fun e => e.editBoard board fun b => b.addMarker rack t marker
    else instruction? what v

end Script

end Sequencer
