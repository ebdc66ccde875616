import Sequencer.Bus.Word
import Sequencer.Link.Error

/-!
Frames: a header of two bytes and a sequence of words, all of it least significant byte first.

The low ten bits of the header are the size of the whole frame in bytes, the six bits above them the
number of the command. `decode` takes exactly one whole frame.
-/
namespace Sequencer

/-- The settings of a board; the board answers with those that it applied. -/
structure ConfigFrame where
  clockRate : Word := 0
  scanRate : Word := 0
  control : Word := 0
  inputs : Word × Word := (0, 0)
  outputs : Word × Word := (0, 0)
  cycles : Word := 0
  samples : Word := 0
  strobeDelay : Word := 0
  syncWait : Word := 0
  syncPhase : Word := 0
  deriving DecidableEq, Repr

structure StatusFrame where
  status : Word := 0
  time : Word := 0
  samples : Word := 0
  cycles : Word := 0
  deriving DecidableEq, Repr

structure RegisterFrame where
  offset : Word := 0
  value : Word := 0
  deriving DecidableEq, Repr

/-- All registers of a board and the last sample that it played. -/
structure FullStatus where
  registers : Vector Word 43
  lastSample : List Word
  deriving DecidableEq, Repr

namespace FullStatus

/-- The names of the registers in the order of the wire. -/
def names : List String :=
  ["ctrl", "ctrl_in0", "ctrl_in1", "ctrl_out0", "ctrl_out1", "clk_div", "strb_delay", "sync_delay",
   "sync_phase", "status", "board_time", "board_time_ext", "board_samples", "board_samples_ext",
   "board_cycles", "sync_time", "version", "info", "temperature", "phase_ext", "phase_det",
   "period_in", "period_out", "period_bus", "dsc_rx_p", "dsc_rx_a", "dsc_rx_c", "dsc_tx_p",
   "dsc_tx_a", "dsc_tx_c", "err_rx", "err_tx", "err_fpga", "irq_tx", "irq_rx", "irq_fpga",
   "irq_num", "tx_bt_tot", "rx_bt_tot", "bt_tot", "reps_set", "reps_act", "timeout_ms"]

/-- The first registers of a list; the missing ones are zero. -/
def ofWords (words lastSample : List Word) : FullStatus :=
  ⟨.ofFn fun i => words.getD i 0, lastSample⟩

/-- The registers that have a name in the list; all others are zero. -/
def ofNamed (values : List (String × Word)) (lastSample : List Word) : FullStatus :=
  ofWords (names.map fun name => (values.lookup name).getD 0) lastSample

def named (s : FullStatus) : List (String × Word) := names.zip s.registers.toList

def bytesPerSample (s : FullStatus) : Nat := 4 * s.lastSample.length

end FullStatus

/-- A header of the command and the frame size; the size loses what ten bits cannot hold. -/
def Command.header (c : Command) (size : Nat) : BitVec 16 :=
  (BitVec.ofNat 6 c.id ++ BitVec.ofNat 10 size).setWidth 16

namespace Header

def bytes (h : BitVec 16) : List Byte := [h.extractLsb' 0 8, h.extractLsb' 8 8]

def ofBytes (low high : Byte) : BitVec 16 := high ++ low

def id (h : BitVec 16) : Nat := (h.extractLsb' 10 6).toNat

def size (h : BitVec 16) : Nat := (h.extractLsb' 0 10).toNat

/-- The command and frame size of a legal header. -/
def check (h : BitVec 16) : Except LinkError (Command × Nat) :=
  match Command.ofId? (id h) with
  | none => .error (.unknownCommand (id h))
  | some command =>
    if size h ∈ command.frameSizes then .ok (command, size h)
    else .error (.unexpectedFrameSize command command.frameSizes (size h))

end Header

inductive Frame where
  | ack | nack | reset | openBoard | close | stop | status | statusIrq | statusFull
  | config (c : ConfigFrame)
  /-- Announces the number of bytes that follow the acknowledgement. -/
  | write (count : Word)
  /-- Starts the run; zero cycles repeat it for ever. -/
  | start (cycles : Word)
  | statusReply (s : StatusFrame)
  | statusIrqReply (s : StatusFrame)
  | getRegister (r : RegisterFrame)
  | setRegister (r : RegisterFrame)
  | statusFullReply (s : FullStatus)
  deriving DecidableEq, Repr

namespace Frame

def command : Frame → Command
  | ack => .ack
  | nack => .nack
  | reset => .reset
  | openBoard => .openBoard
  | close => .close
  | stop => .stop
  | status => .status
  | statusIrq => .statusIrq
  | statusFull => .statusFull
  | config _ => .config
  | write _ => .write
  | start _ => .start
  | statusReply _ => .statusReply
  | statusIrqReply _ => .statusIrqReply
  | getRegister _ => .getRegister
  | setRegister _ => .setRegister
  | statusFullReply _ => .statusFullReply

def payload : Frame → List Word
  | config c =>
    [c.clockRate, c.scanRate, c.control, c.inputs.1, c.inputs.2, c.outputs.1, c.outputs.2, c.cycles,
     c.samples, c.strobeDelay, c.syncWait, c.syncPhase]
  | write count => [count]
  | start cycles => [cycles]
  | statusReply s | statusIrqReply s => [s.status, s.time, s.samples, s.cycles]
  | getRegister r | setRegister r => [r.offset, r.value]
  | statusFullReply s => s.registers.toList ++ s.lastSample
  | _ => []

def encode (f : Frame) : List Byte :=
  let size := Command.headerBytes + 4 * f.payload.length
  Header.bytes (f.command.header size) ++ f.payload.flatMap Word.littleEndian

/-- The frame of a command and its words, if their number fits. -/
def ofWords? : Command → List Word → Option Frame
  | .ack, [] => some ack
  | .nack, [] => some nack
  | .reset, [] => some reset
  | .openBoard, [] => some openBoard
  | .close, [] => some close
  | .stop, [] => some stop
  | .status, [] => some status
  | .statusIrq, [] => some statusIrq
  | .statusFull, [] => some statusFull
  | .config, [w0, w1, w2, w3, w4, w5, w6, w7, w8, w9, w10, w11] =>
    some (config ⟨w0, w1, w2, (w3, w4), (w5, w6), w7, w8, w9, w10, w11⟩)
  | .write, [count] => some (write count)
  | .start, [cycles] => some (start cycles)
  | .statusReply, [s, t, n, c] => some (statusReply ⟨s, t, n, c⟩)
  | .statusIrqReply, [s, t, n, c] => some (statusIrqReply ⟨s, t, n, c⟩)
  | .getRegister, [offset, value] => some (getRegister ⟨offset, value⟩)
  | .setRegister, [offset, value] => some (setRegister ⟨offset, value⟩)
  | .statusFullReply, words =>
    if words.length < 43 then none
    else some (statusFullReply (.ofWords (words.take 43) (words.drop 43)))
  | _, _ => none

/-- Reads exactly one whole frame. -/
def decode : List Byte → Except LinkError Frame
  | low :: high :: rest => do
    let (command, size) ← Header.check (Header.ofBytes low high)
    let actual := Command.headerBytes + rest.length
    if size ≠ actual then
      throw (.unexpectedFrameSize command [size] actual)
    match ofWords? command (Word.listOfBytes rest) with
    | some f => return f
    | none => throw (.unexpectedFrameSize command command.frameSizes actual)
  | _ => .error .peerClosed

/-- The command of a frame, with what is written or read where that is a single number. -/
def text : Frame → String
  | write count => s!"WRITE({count.toNat} bytes)"
  | start cycles => s!"START({cycles.toNat} cycles)"
  | getRegister r => registerText .getRegister r
  | setRegister r => registerText .setRegister r
  | f => f.command.name
where
  registerText (c : Command) (r : RegisterFrame) : String :=
    s!"{c.name}({Text.hex r.offset.toNat 2} = {Text.hex r.value.toNat 8})"

end Frame

end Sequencer
