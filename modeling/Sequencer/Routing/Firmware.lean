import Sequencer.Routing.Table

/-!
The routing tables of the board's firmware.
-/
namespace Sequencer.RoutingTable

private def numbered (names : List String) : List (String × Nat) :=
  names.zip (List.range names.length)

/-- The data bits of the bus, usable as sources. -/
private def dataTaps : List (String × Nat) :=
  (List.range 32).map fun i => (s!"data_{i}", 32 + i)

private def inputSources : List (String × Nat) := numbered ["none", "in0", "in1", "in2"]

private def outputSources : List (String × Nat) :=
  numbered ["fixed_low", "fixed_high", "sync_out", "sync_en", "sync_mon", "clk_locked",
    "clk_ext_used", "run", "wait", "end", "error", "restart", "trg_start", "trg_stop",
    "trg_restart", "strb_0", "strb_1", "irq_tx", "irq_rx", "irq_fpga", "irq_state", "tx_full",
    "rx_full", "ready"]

/-- Triggers start, stop or restart a run; a data bit can stand in for a marker. -/
def inputs : RoutingTable :=
  let triggers := inputSources.map Prod.snd
  let taps := 0 :: dataTaps.map Prod.snd
  { direction := .input
    sources := Keyed.ofList (inputSources ++ dataTaps)
    levels := Keyed.ofList (numbered ["level", "inverted", "rising", "falling"])
    destinations := Keyed.ofList
      [("trigger_start", ⟨0, 0, triggers, [0, 1, 2, 3]⟩),
       ("trigger_stop", ⟨0, 1, triggers, [0, 1, 2, 3]⟩),
       ("trigger_restart", ⟨0, 2, triggers, [0, 1, 2, 3]⟩),
       ("bit_NOP", ⟨1, 0, taps, [0, 1]⟩),
       ("bit_IRQ", ⟨1, 1, taps, [0, 1]⟩),
       ("bit_STRB", ⟨1, 2, taps, [0, 1]⟩)] }

/-- Output lines, the enable signals of the two buses, and three lamps. -/
def outputs : RoutingTable :=
  let signals := outputSources.map Prod.snd
  let everything := signals ++ dataTaps.map Prod.snd
  let busEnable := ["fixed_low", "fixed_high", "run", "wait", "ready", "sync_en"].filterMap
    (List.lookup · outputSources)
  { direction := .output
    sources := Keyed.ofList (outputSources ++ dataTaps)
    levels := Keyed.ofList (numbered ["level", "inverted"])
    destinations := Keyed.ofList
      [("output_0", ⟨0, 0, everything, [0, 1]⟩),
       ("output_1", ⟨0, 1, everything, [0, 1]⟩),
       ("output_2", ⟨0, 2, everything, [0, 1]⟩),
       ("bus_enable_0", ⟨0, 3, busEnable, [0, 1]⟩),
       ("bus_enable_1", ⟨1, 0, busEnable, [0, 1]⟩),
       ("LED_R", ⟨1, 1, signals, [0, 1]⟩),
       ("LED_G", ⟨1, 2, signals, [0, 1]⟩),
       ("LED_B", ⟨1, 3, signals, [0, 1]⟩)] }

def ofDirection : Direction → RoutingTable
  | .input => inputs
  | .output => outputs

end Sequencer.RoutingTable
