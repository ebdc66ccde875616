/-!
The commands between a client and a board. Each has a number on the wire and a fixed set of frame
sizes.
-/
namespace Sequencer

inductive Command where
  | ack | nack | reset | openBoard | close | config | write | start | stop
  | status | statusIrq | statusFull | getRegister | setRegister
  | statusReply | statusIrqReply | statusFullReply
  deriving DecidableEq, Repr

namespace Command

def all : List Command :=
  [ack, nack, reset, openBoard, close, config, write, start, stop, status, statusIrq, statusFull,
   getRegister, setRegister, statusReply, statusIrqReply, statusFullReply]

def id : Command → Nat
  | ack => 0x01
  | nack => 0x02
  | reset => 0x03
  | openBoard => 0x04
  | close => 0x05
  | config => 0x06
  | write => 0x07
  | start => 0x08
  | stop => 0x09
  | status => 0x0A
  | statusIrq => 0x0B
  | statusFull => 0x0C
  | getRegister => 0x0D
  | setRegister => 0x0E
  | statusReply => 0x0F
  | statusIrqReply => 0x10
  | statusFullReply => 0x11

def ofId? (id : Nat) : Option Command := all.find? fun c => c.id = id

def name : Command → String
  | ack => "ACK"
  | nack => "NACK"
  | reset => "RESET"
  | openBoard => "OPEN"
  | close => "CLOSE"
  | config => "CONFIG"
  | write => "WRITE"
  | start => "START"
  | stop => "STOP"
  | status => "STATUS"
  | statusIrq => "STATUS_IRQ"
  | statusFull => "STATUS_FULL"
  | getRegister => "GET_REG"
  | setRegister => "SET_REG"
  | statusReply => "STATUS_RSP"
  | statusIrqReply => "STATUS_IRQ_RSP"
  | statusFullReply => "STATUS_FULL_RSP"

def ofName? (name : String) : Option Command := all.find? fun c => c.name == name

def headerBytes : Nat := 2

/-- The legal lengths of a whole frame in bytes. -/
def frameSizes : Command → List Nat
  | config => [50]
  | write | start => [6]
  | statusReply | statusIrqReply => [18]
  | getRegister | setRegister => [10]
  | statusFullReply => [182, 186]
  | _ => [headerBytes]

theorem ofId?_id (c : Command) : ofId? c.id = some c := by cases c <;> decide

theorem id_of_ofId? {n : Nat} {c : Command} (h : ofId? n = some c) : c.id = n := by
  have := List.find?_some h
  simpa using this

end Command

end Sequencer
