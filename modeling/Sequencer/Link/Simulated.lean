import Sequencer.Bisect
import Sequencer.Link.Frame
import Sequencer.Link.Status

/-!
A board without hardware: it answers requests, keeps what was uploaded, and plays nothing.

How far a run has come follows from the time since its start and the time column of the stream. All
connections share one board, which also keeps how much of an announced stream is still to come; what
has arrived but not been read belongs to the connection. Times are in nanoseconds.
-/
namespace Sequencer

structure SimulatedBoard where
  name : String
  /-- Whether the external clock locks. -/
  externalClock : Bool := true
  /-- Commands that are always refused. -/
  refuses : List Command := []
  /-- Commands that are never answered. -/
  ignores : List Command := []
  /-- How much faster than real time the board runs. -/
  speed : Float := 1.0
  config : ConfigFrame := {}
  isOpen : Bool := false
  data : List Byte := []
  /-- The time column of the stream. -/
  times : Array Word := #[]
  /-- Bytes of the stream that are still to come. -/
  pending : Nat := 0
  cycles : Word := 0
  startedAt : Option Nat := none
  stoppedAfter : Option Nat := none
  /-- All requests so far. -/
  received : List Command := []

/-- The whole pieces of `size + 1` items, each by its first item and the rest. -/
def wholePieces {α : Type} (size : Nat) : List α → List (α × List α)
  | [] => []
  | a :: rest =>
    if rest.length < size then []
    else (a, rest.take size) :: wholePieces size (rest.drop size)
termination_by l => l.length
decreasing_by simp only [List.length_cons, List.length_drop]; omega

/-- The state of a run of a stream. -/
structure Progress where
  ended : Bool
  time : Nat
  samples : Nat
  cycles : Nat
  deriving DecidableEq, Repr

/-- The state after so many ticks. The period is one tick longer than the last time; zero cycles
never end. -/
def Progress.of (times : Array Word) (cycles ticks : Nat) : Progress :=
  let period := ((times.back?).map BitVec.toNat).getD 0 + 1
  if 0 < cycles ∧ period * cycles ≤ ticks then
    ⟨true, period - 1, times.size * cycles, cycles⟩
  else
    let tick := ticks % period
    ⟨false, tick, ticks / period * times.size + bisect (fun t => t.toNat ≤ tick) times,
      ticks / period⟩

namespace SimulatedBoard

def bytesPerSample (b : SimulatedBoard) : Nat :=
  if b.config.control.isSet Control.twoRacks then 12 else 8

def reset (b : SimulatedBoard) : SimulatedBoard :=
  { b with config := {}, data := [], times := #[], pending := 0, cycles := 0, startedAt := none,
           stoppedAfter := none }

/-- The first word of every whole sample. -/
def timeColumn (bytesPerSample : Nat) (data : List Byte) : Array Word :=
  ((wholePieces (bytesPerSample - 1) data).filterMap fun (first, rest) =>
    (Word.listOfBytes (first :: rest)).head?).toArray

/-- How long the board has been running, or how long it ran. -/
def elapsed (b : SimulatedBoard) (now startedAt : Nat) : Nat :=
  b.stoppedAfter.getD (now - startedAt)

def seconds (nanoseconds : Nat) : Float :=
  (nanoseconds / 10 ^ 9).toFloat + (nanoseconds % 10 ^ 9).toFloat / 1e9

/-- The ticks of the bus in a time, at most what 64 bits hold. -/
def ticks (b : SimulatedBoard) (elapsed : Nat) : Nat :=
  (seconds elapsed * b.speed * b.config.scanRate.toNat.toFloat).toUInt64.toNat

def clockStatus (b : SimulatedBoard) : Word :=
  if b.config.control.isSet Control.externalClock then
    if b.externalClock then Status.ready ||| Status.externalUsed ||| Status.externalLocked
    else Status.ready ||| Status.externalUsed
  else Status.ready

/-- The status of a started board after so many ticks. -/
def statusAfter (b : SimulatedBoard) (ticks : Nat) : StatusFrame :=
  let clock := b.clockStatus
  let lost := clock.isSet Status.externalUsed && !clock.isSet Status.externalLocked
    && b.config.control.isSet Control.lockErrorEnable
  let status := if lost then clock ||| Status.errorLock else clock
  let p := Progress.of b.times b.cycles.toNat ticks
  let state :=
    if p.ended then Status.ended ||| Status.interruptEnd
    else if b.stoppedAfter.isNone then Status.run else 0
  ⟨status ||| state, .ofNat 32 p.time, .ofNat 32 p.samples, .ofNat 32 p.cycles⟩

def status (b : SimulatedBoard) (now : Nat) : StatusFrame :=
  match b.startedAt with
  | none => ⟨b.clockStatus, 0, 0, 0⟩
  | some startedAt => b.statusAfter (b.ticks (b.elapsed now startedAt))

/-- Clock cycles per sample. -/
def clockDivider (b : SimulatedBoard) : Word := b.config.clockRate / b.config.scanRate

def readRegister? (b : SimulatedBoard) (now : Nat) (offset : Word) : Option Word :=
  let c := b.config
  let s := b.status now
  [(Register.control, c.control), (Register.inputs0, c.inputs.1), (Register.inputs1, c.inputs.2),
   (Register.outputs0, c.outputs.1), (Register.outputs1, c.outputs.2),
   (Register.clockDivider, b.clockDivider), (Register.strobeDelay, c.strobeDelay),
   (Register.syncDelay, c.syncWait), (Register.syncPhase, c.syncPhase),
   (Register.samples, c.samples), (Register.cycles, c.cycles), (Register.status, s.status),
   (Register.boardTime, s.time), (Register.boardSamples, s.samples),
   (Register.boardCycles, s.cycles)].lookup offset

/-- The configuration after a register is written; `none` for a register that only reads. -/
def writeRegister? (c : ConfigFrame) (offset value : Word) : Option ConfigFrame :=
  [(Register.control, { c with control := value }),
   (Register.inputs0, { c with inputs := (value, c.inputs.2) }),
   (Register.inputs1, { c with inputs := (c.inputs.1, value) }),
   (Register.outputs0, { c with outputs := (value, c.outputs.2) }),
   (Register.outputs1, { c with outputs := (c.outputs.1, value) }),
   (Register.strobeDelay, { c with strobeDelay := value }),
   (Register.syncDelay, { c with syncWait := value }),
   (Register.syncPhase, { c with syncPhase := value }),
   (Register.samples, { c with samples := value }),
   (Register.cycles, { c with cycles := value })].lookup offset

def version : Word := 0x00010000

/-- The last sample of the stream, or zeros if nothing has been played. -/
def lastSample (b : SimulatedBoard) : List Word :=
  let size := b.bytesPerSample
  if b.startedAt.isSome && size ≤ b.data.length then
    Word.listOfBytes (b.data.drop (b.data.length - size))
  else List.replicate (size / 4) 0

def fullStatus (b : SimulatedBoard) (now : Nat) : FullStatus :=
  let c := b.config
  let s := b.status now
  .ofNamed
    [("ctrl", c.control), ("ctrl_in0", c.inputs.1), ("ctrl_in1", c.inputs.2),
     ("ctrl_out0", c.outputs.1), ("ctrl_out1", c.outputs.2), ("clk_div", b.clockDivider),
     ("strb_delay", c.strobeDelay), ("sync_delay", c.syncWait), ("sync_phase", c.syncPhase),
     ("status", s.status), ("board_time", s.time), ("board_time_ext", s.time),
     ("board_samples", s.samples), ("board_samples_ext", s.samples), ("board_cycles", s.cycles),
     ("version", version), ("bt_tot", .ofNat 32 b.data.length), ("reps_set", b.cycles),
     ("reps_act", s.cycles)]
    b.lastSample

/-- A scan rate that the clock cannot give is replaced by the clock rate. -/
def appliedConfig (c : ConfigFrame) : ConfigFrame :=
  if c.scanRate = 0 ∨ c.clockRate < c.scanRate then
    { c with scanRate := if c.clockRate = 0 then 1 else c.clockRate }
  else c

/-- What the board does on a request that it neither refuses nor ignores. -/
def perform (b : SimulatedBoard) (now : Nat) : Frame → SimulatedBoard × Frame
  | .openBoard => ({ b with isOpen := true }, .ack)
  | .close => ({ b with isOpen := false }, .ack)
  | .reset => (b.reset, .ack)
  | .config c => ({ b with config := appliedConfig c }, .config (appliedConfig c))
  | .write count =>
    if count = 0 ∨ count.toNat % b.bytesPerSample ≠ 0 then (b, .nack)
    else ({ b with data := [], times := #[], pending := count.toNat }, .ack)
  | .start cycles =>
    if b.times.isEmpty then (b, .nack)
    else ({ b with cycles, startedAt := some now, stoppedAfter := none }, .ack)
  | .stop =>
    match b.startedAt with
    | some startedAt => ({ b with stoppedAfter := some (b.elapsed now startedAt) }, .ack)
    | none => (b, .ack)
  | .status => (b, .statusReply (b.status now))
  | .statusIrq => (b, .statusIrqReply (b.status now))
  | .statusFull => (b, .statusFullReply (b.fullStatus now))
  | .getRegister r =>
    match b.readRegister? now r.offset with
    | some value => (b, .getRegister ⟨r.offset, value⟩)
    | none => (b, .nack)
  | .setRegister r =>
    match writeRegister? b.config r.offset r.value with
    | some config =>
      let b := { b with config }
      (b, .setRegister ⟨r.offset, (b.readRegister? now r.offset).getD 0⟩)
    | none => (b, .nack)
  | _ => (b, .nack)

/-- The answer to a request, if there is one. -/
def handle (b : SimulatedBoard) (now : Nat) (request : Frame) : SimulatedBoard × Option Frame :=
  let b := { b with received := b.received ++ [request.command] }
  if request.command ∈ b.ignores then (b, none)
  else if request.command ∈ b.refuses then (b, some .nack)
  else
    let (b, answer) := b.perform now request
    (b, some answer)

/-- Takes a piece of the stream, acknowledged when it was the last one. -/
def store (b : SimulatedBoard) (piece : List Byte) : SimulatedBoard × Option Frame :=
  let data := b.data ++ piece
  let pending := b.pending - piece.length
  if pending = 0 then
    ({ b with data, pending, times := timeColumn b.bytesPerSample data }, some .ack)
  else ({ b with data, pending }, none)

end SimulatedBoard

/-- The board's end of a connection. -/
structure SimulatedLink where
  /-- What has arrived but not been read. -/
  inbox : List Byte := []
  outbox : List Byte := []
  closed : Bool := false
  deriving DecidableEq, Repr

namespace SimulatedLink

def queue (l : SimulatedLink) (answer : Option Frame) : SimulatedLink :=
  { l with outbox := l.outbox ++ (answer.map Frame.encode).getD [] }

/-- What is at the front of the bytes that have arrived. -/
inductive Front where
  | incomplete
  | illegal
  /-- A frame, if it can be read, and the number of its bytes after the first. -/
  | frame (request : Option Frame) (more : Nat)

def Front.of : List Byte → Front
  | low :: high :: rest =>
    match Header.check (Header.ofBytes low high) with
    | .error _ => .illegal
    | .ok (_, size) =>
      if rest.length + Command.headerBytes < size then .incomplete
      else .frame (Frame.decode ((low :: high :: rest).take size)).toOption (size - 1)
  | _ => .incomplete

/-- Answers a frame; one that cannot be read is refused. -/
def answer (now : Nat) (b : SimulatedBoard) (l : SimulatedLink) :
    Option Frame → SimulatedBoard × SimulatedLink
  | none => (b, l.queue (some .nack))
  | some request =>
    let (b, answer) := b.handle now request
    (b, { l.queue answer with closed := l.closed || request.command == .close })

/-- Reads from what has arrived as far as it holds whole frames and pieces of the stream. What
follows an illegal header is thrown away. -/
def read (now : Nat) (arrived : List Byte) (b : SimulatedBoard) (l : SimulatedLink) :
    SimulatedBoard × SimulatedLink :=
  match arrived with
  | [] => (b, { l with inbox := [] })
  | first :: tail =>
    if b.pending ≠ 0 then
      let (b', reply) := b.store (first :: tail.take (b.pending - 1))
      read now (tail.drop (b.pending - 1)) b' (l.queue reply)
    else
      match Front.of (first :: tail) with
      | .incomplete => (b, { l with inbox := first :: tail })
      | .illegal => (b, { l.queue (some .nack) with inbox := [] })
      | .frame request more =>
        let (b', l') := answer now b l request
        read now (tail.drop more) b' l'
termination_by arrived.length
decreasing_by all_goals simp only [List.length_cons, List.length_drop]; omega

def send (now : Nat) (bytes : List Byte) (b : SimulatedBoard) (l : SimulatedLink) :
    Except LinkError Unit × SimulatedBoard × SimulatedLink :=
  if l.closed then (.error .peerClosed, b, l)
  else (.ok (), read now (l.inbox ++ bytes) b l)

/-- Takes answers out of the outbox; never waits, and takes nothing if there is not enough. -/
def receive (count : Nat) (b : SimulatedBoard) (l : SimulatedLink) :
    Except LinkError (List Byte) × SimulatedLink :=
  if l.outbox.length < count then
    let late := LinkError.timeout s!"waiting for simulated board {b.name}"
    (.error (if l.closed then .peerClosed else late), l)
  else (.ok (l.outbox.take count), { l with outbox := l.outbox.drop count })

end SimulatedLink

end Sequencer
