import Sequencer.Board.Config
import Sequencer.Settings.Value

/-!
Run options and board configurations as configuration values.
-/
namespace Sequencer

private def selection? (v : Value) : Option Selection := do
  let routes ← (← v.entries?).mapM fun (name, route) =>
    return (name, ← Route.parse? (← route.text?))
  return Keyed.ofList routes

private def selectionValue (s : Selection) : Value :=
  .table (s.entries.map fun (name, route) => (name, .text route.text))

namespace RunOptions

def names : List String :=
  ["config", "inputs", "outputs", "ext_clock", "ignore_clock_loss", "sync_wait", "sync_phase",
    "strb_delay", "num_cycles", "simulate"]

def ofValue? (v : Value) : Option RunOptions := do
  let fields ← v.fields? names
  let word (name : String) := readField? fields name none (Value.optional? Value.word?)
  let flag (name : String) := readField? fields name none (Value.optional? Value.boolean?)
  let routes (name : String) := readField? fields name none (Value.optional? selection?)
  return { control := ← word "config"
           inputs := ← routes "inputs"
           outputs := ← routes "outputs"
           externalClock := ← flag "ext_clock"
           ignoreClockLoss := ← flag "ignore_clock_loss"
           syncWait := ← word "sync_wait"
           syncPhase := ← word "sync_phase"
           strobeDelay := ← word "strb_delay"
           cycles := ← word "num_cycles"
           simulate := ← flag "simulate" }

/-- Options that are not set are left out. -/
def toValue (o : RunOptions) : Value :=
  let word (w : Word) : Value := .integer w.toNat
  .table <| [
    ("config", o.control.map word), ("inputs", o.inputs.map selectionValue),
    ("outputs", o.outputs.map selectionValue), ("ext_clock", o.externalClock.map .boolean),
    ("ignore_clock_loss", o.ignoreClockLoss.map .boolean), ("sync_wait", o.syncWait.map word),
    ("sync_phase", o.syncPhase.map word), ("strb_delay", o.strobeDelay.map word),
    ("num_cycles", o.cycles.map word), ("simulate", o.simulate.map .boolean)].filterMap
      fun (name, value) => value.map fun v => (name, v)

end RunOptions

def Role.ofName? : String → Option Role
  | "primary" => some .primary
  | "secondary" => some .secondary
  | _ => none

namespace BoardConfig

def names : List String :=
  ["name", "endpoint", "bus_rate", "clock_rate", "num_racks", "role", "peers", "auto_strb",
    "check_codecs", "strb_pos", "initial_counter", "ramp_rate", "defaults"]

def ofValue? (v : Value) : Option BoardConfig := do
  let fields ← v.fields? names
  let base : BoardConfig := {}
  return { name := ← readField? fields "name" base.name Value.text?
           endpoint := ← readField? fields "endpoint" base.endpoint Value.text?
           busRate := ← readField? fields "bus_rate" base.busRate Value.real?
           clockRate := ← readField? fields "clock_rate" base.clockRate Value.real?
           racks := ← readField? fields "num_racks" base.racks Value.nat64?
           role := ← readField? fields "role" base.role fun v => v.text? >>= Role.ofName?
           peers := ← readField? fields "peers" base.peers Value.texts?
           autoStrobe := ← readField? fields "auto_strb" base.autoStrobe Value.boolean?
           checkCodecs := ← readField? fields "check_codecs" base.checkCodecs Value.boolean?
           strobePosition := ← readField? fields "strb_pos" base.strobePosition Value.nat32?
           initialCounter := ← readField? fields "initial_counter" base.initialCounter Value.word?
           rampRate := ← readField? fields "ramp_rate" base.rampRate (Value.optional? Value.real?)
           defaults := ← readField? fields "defaults" base.defaults RunOptions.ofValue? }

/-- A ramp rate that is not set is left out. -/
def toValue (c : BoardConfig) : Value :=
  .table <| [
    ("name", .text c.name), ("endpoint", .text c.endpoint), ("bus_rate", .real c.busRate),
    ("clock_rate", .real c.clockRate), ("num_racks", .integer c.racks),
    ("role", .text c.role.name), ("peers", .list (c.peers.map .text)),
    ("auto_strb", .boolean c.autoStrobe), ("check_codecs", .boolean c.checkCodecs),
    ("strb_pos", .integer c.strobePosition), ("initial_counter", .integer c.initialCounter.toNat)]
    ++ (c.rampRate.map fun r => ("ramp_rate", Value.real r)).toList
    ++ [("defaults", c.defaults.toValue)]

end BoardConfig

end Sequencer
