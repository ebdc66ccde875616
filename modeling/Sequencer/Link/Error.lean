import Sequencer.Link.Command
import Sequencer.Text.Layout

/-!
Faults on the connection to a board.

A refusal by the board and a call that does not fit the client's state leave the connection usable.
Every other fault is fatal: nothing can be said about what the two sides will send next.
-/
namespace Sequencer

/-- How far a client has come with its board. -/
inductive LinkState where
  | disconnected
  /-- Connected, but the board has not been opened. -/
  | connected
  | opened
  | configured
  /-- The whole stream is uploaded. -/
  | armed
  | running
  deriving DecidableEq, Repr

def LinkState.name : LinkState → String
  | disconnected => "Disconnected"
  | connected => "Connected"
  | opened => "Open"
  | configured => "Configured"
  | armed => "Armed"
  | running => "Running"

/-- What a socket may report. -/
inductive SocketFault where
  | timedOut | wouldBlock
  | unexpectedEnd | connectionReset | connectionAborted | brokenPipe
  | connectionRefused | notFound | permissionDenied | interrupted | addressInUse
  | addressNotAvailable | alreadyExists | invalidInput | invalidData | notConnected | writeZero
  | unsupported | outOfMemory | other
  deriving DecidableEq, Repr

namespace SocketFault

/-- Every fault with its name and its text. -/
def table : List (SocketFault × String × String) :=
  [(timedOut, "TimedOut", "timed out"), (wouldBlock, "WouldBlock", "operation would block"),
   (unexpectedEnd, "UnexpectedEof", "unexpected end of file"),
   (connectionReset, "ConnectionReset", "connection reset"),
   (connectionAborted, "ConnectionAborted", "connection aborted"),
   (brokenPipe, "BrokenPipe", "broken pipe"),
   (connectionRefused, "ConnectionRefused", "connection refused"),
   (notFound, "NotFound", "entity not found"),
   (permissionDenied, "PermissionDenied", "permission denied"),
   (interrupted, "Interrupted", "operation interrupted"),
   (addressInUse, "AddrInUse", "address in use"),
   (addressNotAvailable, "AddrNotAvailable", "address not available"),
   (alreadyExists, "AlreadyExists", "entity already exists"),
   (invalidInput, "InvalidInput", "invalid input parameter"),
   (invalidData, "InvalidData", "invalid data"), (notConnected, "NotConnected", "not connected"),
   (writeZero, "WriteZero", "write zero"), (unsupported, "Unsupported", "unsupported"),
   (outOfMemory, "OutOfMemory", "out of memory"), (other, "Other", "other error")]

def text (f : SocketFault) : String := ((table.lookup f).map Prod.snd).getD ""

def ofName? (name : String) : Option SocketFault :=
  (table.find? fun f => f.2.1 == name).map Prod.fst

end SocketFault

inductive LinkError where
  | unexpectedFrameSize (command : Command) (expected : List Nat) (actual : Nat)
  | unexpectedCommand (request expected actual : Command)
  | unknownCommand (id : Nat)
  /-- The board refused the command. -/
  | refused (command : Command)
  | peerClosed
  | timeout (what : String)
  | notConnected
  | invalidState (operation : Command) (state : LinkState)
  | socket (fault : SocketFault)
  deriving DecidableEq, Repr

namespace LinkError

def message : LinkError → String
  | unexpectedFrameSize command expected actual =>
    s!"{command.name} frame of {actual} bytes, expected {Text.bracketed (expected.map toString)}"
  | unexpectedCommand request expected actual =>
    s!"Expected {expected.name} in reply to {request.name}, got {actual.name}"
  | unknownCommand id => "Unknown command id " ++ Text.hex id 2
  | refused command => s!"Board rejected {command.name}"
  | peerClosed => "Connection closed by the board"
  | timeout what => s!"Timeout while {what}"
  | notConnected => "Not connected"
  | invalidState operation state => s!"{operation.name} is not allowed in state {state.name}"
  | socket fault => fault.text

/-- The short name of an error. -/
def kind : LinkError → String
  | unexpectedFrameSize .. => "UnexpectedFrameSize"
  | unexpectedCommand .. => "UnexpectedCommand"
  | unknownCommand .. => "UnknownCommand"
  | refused .. => "Nack"
  | peerClosed => "PeerClosed"
  | timeout .. => "Timeout"
  | notConnected => "NotConnected"
  | invalidState .. => "InvalidState"
  | socket .. => "Io"

/-- Whether the connection is unusable after the error. -/
def isFatal : LinkError → Bool
  | refused _ | invalidState _ _ | notConnected => false
  | _ => true

/-- A fault of a socket while it does something. -/
def ofSocket (fault : SocketFault) (what : String) : LinkError :=
  match fault with
  | .timedOut | .wouldBlock => timeout what
  | .unexpectedEnd | .connectionReset | .connectionAborted | .brokenPipe => peerClosed
  | fault => socket fault

end LinkError

end Sequencer
