import Sequencer.Settings.Error
import Sequencer.Settings.Fields

/-!
Worker settings: timeouts, how a failed run ends, and the table of boards.
-/
namespace Sequencer

structure WorkerSettings where
  connectTimeoutMs : Nat := 1000
  operationTimeoutMs : Nat := 5000
  /-- How long a worker waits for another one. -/
  barrierTimeoutMs : Nat := 5000
  /-- Between two status polls of a running board. -/
  pollIntervalMs : Nat := 10
  /-- What a run may take beyond the length of its stream. -/
  runMarginMs : Nat := 5000
  /-- The most bytes of a stream in one send. -/
  chunkBytes : Nat := 65536
  /-- A failed run ends by closing the connection instead of a reset. -/
  closeOnAbort : Bool := true
  eventDirectory : String := "/tmp"
  boards : Keyed BoardConfig := .empty
  deriving BEq

namespace WorkerSettings

def names : List String :=
  ["connect_timeout_ms", "op_timeout_ms", "barrier_timeout_ms", "poll_interval_ms",
    "run_margin_ms", "chunk_bytes", "close_on_abort", "event_dir", "boards"]

private def boards? (v : Value) : Option (Keyed BoardConfig) := do
  let boards ← (← v.entries?).mapM fun (name, board) => return (name, ← BoardConfig.ofValue? board)
  return Keyed.ofList boards

def ofValue? (v : Value) : Option WorkerSettings := do
  let fields ← v.fields? names
  let base : WorkerSettings := {}
  let nat (name : String) (default : Nat) := readField? fields name default Value.nat64?
  return { connectTimeoutMs := ← nat "connect_timeout_ms" base.connectTimeoutMs
           operationTimeoutMs := ← nat "op_timeout_ms" base.operationTimeoutMs
           barrierTimeoutMs := ← nat "barrier_timeout_ms" base.barrierTimeoutMs
           pollIntervalMs := ← nat "poll_interval_ms" base.pollIntervalMs
           runMarginMs := ← nat "run_margin_ms" base.runMarginMs
           chunkBytes := ← nat "chunk_bytes" base.chunkBytes
           closeOnAbort := ← readField? fields "close_on_abort" base.closeOnAbort Value.boolean?
           eventDirectory := ← readField? fields "event_dir" base.eventDirectory Value.text?
           boards := ← readField? fields "boards" base.boards boards? }

def toValue (s : WorkerSettings) : Value :=
  .table [
    ("connect_timeout_ms", .integer s.connectTimeoutMs),
    ("op_timeout_ms", .integer s.operationTimeoutMs),
    ("barrier_timeout_ms", .integer s.barrierTimeoutMs),
    ("poll_interval_ms", .integer s.pollIntervalMs), ("run_margin_ms", .integer s.runMarginMs),
    ("chunk_bytes", .integer s.chunkBytes), ("close_on_abort", .boolean s.closeOnAbort),
    ("event_dir", .text s.eventDirectory),
    ("boards", .table (s.boards.entries.map fun (name, b) => (name, b.toValue)))]

/-- The first fault of one entry of the board table. -/
def entryFault? (boards : Keyed BoardConfig) (name : String) (b : BoardConfig) :
    Option SettingsFault :=
  if name ≠ b.name then some (.wrongEntry name b.name)
  else match b.validate with
    | .error e => some (.invalidBoard e)
    | .ok _ => b.peers.findSome? fun peer =>
      match boards.get? peer with
      | some other => if other.role = b.role then some (.sameRole name peer b.role) else none
      | none => none

def primaries (s : WorkerSettings) : Nat := s.boards.values.countP fun b => b.role == .primary

/-- The first fault: the timeouts, then the boards one by one, then the number of primaries. -/
def fault? (s : WorkerSettings) : Option SettingsFault :=
  if s.operationTimeoutMs = 0 ∨ s.barrierTimeoutMs = 0 then some .timeouts
  else
    let boards := s.boards.entries
    (boards.findSome? fun (name, b) => entryFault? s.boards name b) <|>
      if 1 < boards.length ∧ s.primaries ≠ 1 then some (.primaryCount s.primaries boards.length)
      else none

def validate (s : WorkerSettings) : Except SettingsError Unit :=
  match s.fault? with
  | some fault => .error (.invalid fault)
  | none => .ok ()

end WorkerSettings

end Sequencer
