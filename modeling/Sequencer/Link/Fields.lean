import Sequencer.Link.Frame
import Sequencer.Link.Status
import Sequencer.Settings.Value

/-!
Frames and status summaries as configuration values. A field that is not there is zero; of
a number beyond 32 bits the low ones count.
-/
namespace Sequencer

private def wordIn (v : Value) (name : String) : Option Word := v.orElse? name 0 Value.lowWord?

private def words (pairs : List (String × Word)) : Value :=
  .table (pairs.map fun (name, w) => (name, .ofWord w))

namespace ConfigFrame

def ofValue? (v : Value) : Option ConfigFrame := do
  let pair (name : String) := v.orElse? name (0, 0) (Value.pair? Value.lowWord? Value.lowWord?)
  return { clockRate := ← wordIn v "clock_hz"
           scanRate := ← wordIn v "scan_hz"
           control := ← wordIn v "config"
           inputs := ← pair "ctrl_in"
           outputs := ← pair "ctrl_out"
           cycles := ← wordIn v "cycles"
           samples := ← wordIn v "num_samples"
           strobeDelay := ← wordIn v "strb_delay"
           syncWait := ← wordIn v "sync_wait"
           syncPhase := ← wordIn v "sync_phase" }

def toValue (c : ConfigFrame) : Value :=
  let pair (p : Word × Word) : Value := .list [.ofWord p.1, .ofWord p.2]
  .table [
    ("clock_hz", .ofWord c.clockRate), ("scan_hz", .ofWord c.scanRate),
    ("config", .ofWord c.control), ("ctrl_in", pair c.inputs), ("ctrl_out", pair c.outputs),
    ("cycles", .ofWord c.cycles), ("num_samples", .ofWord c.samples),
    ("strb_delay", .ofWord c.strobeDelay), ("sync_wait", .ofWord c.syncWait),
    ("sync_phase", .ofWord c.syncPhase)]

end ConfigFrame

namespace StatusFrame

def ofValue? (v : Value) : Option StatusFrame := do
  return ⟨← wordIn v "status", ← wordIn v "board_time", ← wordIn v "board_samples",
    ← wordIn v "board_cycles"⟩

def toValue (s : StatusFrame) : Value :=
  words [("status", s.status), ("board_time", s.time), ("board_samples", s.samples),
    ("board_cycles", s.cycles)]

end StatusFrame

namespace RegisterFrame

def ofValue? (v : Value) : Option RegisterFrame := do
  return ⟨← wordIn v "offset", ← wordIn v "value"⟩

def toValue (r : RegisterFrame) : Value := words [("offset", r.offset), ("value", r.value)]

end RegisterFrame

def FullStatus.toValue (s : FullStatus) : Value :=
  .table (s.named.map (fun (name, w) => (name, Value.ofWord w))
    ++ [("last_sample", .list (s.lastSample.map .ofWord))])

namespace Frame

/-- The frame of a command with the given fields. -/
def ofValue? (v : Value) : Option Frame := do
  match ← v.need? "frame" Value.text? >>= Command.ofName? with
  | .config => return config (← ConfigFrame.ofValue? v)
  | .write => return write (← wordIn v "count")
  | .start => return start (← wordIn v "cycles")
  | .statusReply => return statusReply (← StatusFrame.ofValue? v)
  | .statusIrqReply => return statusIrqReply (← StatusFrame.ofValue? v)
  | .getRegister => return getRegister (← RegisterFrame.ofValue? v)
  | .setRegister => return setRegister (← RegisterFrame.ofValue? v)
  | .statusFullReply =>
    let list (name : String) := v.orElse? name [] (Value.list? Value.lowWord?)
    return statusFullReply (.ofWords (← list "fields") (← list "last_sample"))
  | command => ofWords? command []

/-- The fields of a frame; a frame without a payload has none. -/
def body : Frame → Value
  | config c => c.toValue
  | write count => words [("count", count)]
  | start cycles => words [("cycles", cycles)]
  | statusReply s | statusIrqReply s => s.toValue
  | getRegister r | setRegister r => r.toValue
  | statusFullReply s => s.toValue
  | _ => .null

end Frame

def StatusSummary.toValue (s : StatusSummary) : Value :=
  .table [
    ("state", .text s.state.name), ("flags", .ofWord s.flags), ("errors", .ofWord s.errors),
    ("clock_locked", .boolean s.clockLocked),
    ("clock_lost_but_running", .boolean s.clockLostRunning),
    ("clock_lost_at_end", .boolean s.clockLostAtEnd)]

end Sequencer
