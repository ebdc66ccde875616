import Sequencer.Link.Chunks
import Sequencer.Link.Frame
import Sequencer.Link.Status
import Sequencer.Program

/-!
The client of one board: one request of the board at a time, in the order that the board needs.

A client is a program over an interface of byte connections. A fatal error shuts the connection down
and leaves the client disconnected; any other error changes nothing.
-/
namespace Sequencer

/-- The number of a connection. -/
abbrev ConnectionId := Nat

/-- What a client asks of its connections. -/
inductive LinkCall where
  | send (connection : ConnectionId) (bytes : List Byte)
  /-- Exactly so many bytes, or an error. -/
  | receive (connection : ConnectionId) (count : Nat)
  | shutdown (connection : ConnectionId)
  deriving DecidableEq, Repr

def LinkCall.Answer : LinkCall → Type
  | send _ _ => Except LinkError Unit
  | receive _ _ => Except LinkError (List Byte)
  | shutdown _ => Unit

def linkInterface : Interface := ⟨LinkCall, LinkCall.Answer⟩

structure Client where
  name : String
  connection : Option ConnectionId := none
  state : LinkState := .disconnected
  operationMs : Nat := 5000
  policy : ErrorPolicy := {}
  /-- The most bytes of the stream in one send. -/
  chunkBytes : UInt64 := 65536
  /-- The last configuration that the board applied. -/
  applied : Option ConfigFrame := none
  lastStatus : Option StatusFrame := none

/-- A client's program, which keeps the client's changes when it fails. -/
abbrev LinkM (α : Type) := ExceptT LinkError (StateT Client (Program linkInterface)) α

/-- Reads one whole frame, its header first. -/
def readFrame (connection : ConnectionId) : Program linkInterface (Except LinkError Frame) := do
  match ← Program.ask (I := linkInterface) (.receive connection Command.headerBytes) with
  | .error e => return .error e
  | .ok header =>
    match Header.check (Header.ofBytes (header.getD 0 0) (header.getD 1 0)) with
    | .error e => return .error e
    | .ok (_, size) =>
      let more := size - Command.headerBytes
      match ← Program.ask (I := linkInterface) (.receive connection more) with
      | .error e => return .error e
      | .ok rest => return Frame.decode (header ++ rest)

namespace Client

def isConnected (c : Client) : Bool := c.state != .disconnected

def setChunkBytes (c : Client) (bytes : UInt64) : Client := { c with chunkBytes := max bytes 1 }

def ask (c : LinkCall) : LinkM c.Answer :=
  ExceptT.lift (StateT.lift (Program.ask (I := linkInterface) c))

/-- Fails unless the client is in one of the states. -/
def require (operation : Command) (allowed : List LinkState) : LinkM Unit := do
  let c ← get
  if c.state = .disconnected then throw .notConnected
  if c.state ∉ allowed then throw (.invalidState operation c.state)

def anyConnected : List LinkState := [.connected, .opened, .configured, .armed, .running]

/-- Shuts the connection down, if there is one, and forgets it. -/
def dropConnection : LinkM Unit := do
  if let some connection := (← get).connection then
    ask (.shutdown connection)
  modify fun c => { c with connection := none, state := .disconnected, applied := none }

/-- The client over a new connection; an old one is shut down. -/
def attach (connection : ConnectionId) : LinkM Unit := do
  dropConnection
  modify fun c => { c with connection := some connection, state := .connected }

/-- Passes a result on; a fatal error costs the connection. -/
def guarding {α : Type} (result : Except LinkError α) : LinkM α := do
  match result with
  | .ok a => return a
  | .error e =>
    if e.isFatal then dropConnection
    throw e

def sendBytes (bytes : List Byte) : LinkM Unit := do
  match (← get).connection with
  | some connection => guarding (← ask (.send connection bytes))
  | none => guarding (.error .notConnected)

/-- The frame, if it is the expected answer to the request. -/
def expect (request expected : Command) (f : Frame) : Except LinkError Frame :=
  if f.command = expected then .ok f
  else if f.command = .nack then .error (.refused request)
  else .error (.unexpectedCommand request expected f.command)

def receive (request expected : Command) : LinkM Frame := do
  match (← get).connection with
  | some connection =>
    let answer ← ExceptT.lift (StateT.lift (readFrame connection))
    guarding (answer >>= expect request expected)
  | none => guarding (.error .notConnected)

/-- Sends a request and waits for its answer. -/
def transact (request : Frame) (expected : Command) : LinkM Frame := do
  sendBytes request.encode
  receive request.command expected

def setState (state : LinkState) : LinkM Unit := modify fun c => { c with state }

def openBoard : LinkM Unit := do
  require .openBoard anyConnected
  let _ ← transact .openBoard .ack
  if (← get).state = .connected then setState .opened

def reset : LinkM Unit := do
  require .reset anyConnected
  let _ ← transact .reset .ack
  modify fun c => { c with state := .opened, applied := none }

/-- Sends a configuration; the result is what the board applied of it. -/
def configure (config : ConfigFrame) : LinkM ConfigFrame := do
  require .config [.opened, .configured, .armed]
  let applied := match ← transact (.config config) .config with
    | .config applied => applied
    | _ => config
  modify fun c => { c with state := .configured, applied := some applied }
  return applied

/-- The longest stream that can be announced. -/
def maxPayload : Nat := 2 ^ 32 - 1

/-- Announces the length of the stream, then sends it in chunks. -/
def write (payload : List Byte) : LinkM Unit := do
  require .write [.configured, .armed]
  if maxPayload < payload.length then
    throw (.unexpectedFrameSize .write [maxPayload] payload.length)
  let _ ← transact (.write (BitVec.ofNat 32 payload.length)) .ack
  (chunksOf (← get).chunkBytes payload).forM sendBytes
  let _ ← receive .write .ack
  setState .armed

def start (cycles : Word) : LinkM Unit := do
  require .start [.armed]
  let _ ← transact (.start cycles) .ack
  setState .running

/-- Stops the board. The next run begins with the configuration again. -/
def stop : LinkM Unit := do
  require .stop anyConnected
  let _ ← transact .stop .ack
  if (← get).state ≠ .connected then setState .opened

/-- Asks for the status, at once or after its next change. -/
def poll (atChange : Bool) : LinkM StatusFrame := do
  require .status anyConnected
  let reply ←
    if atChange then transact .statusIrq .statusIrqReply else transact .status .statusReply
  let status : StatusFrame := match reply with
    | .statusReply s | .statusIrqReply s => s
    | _ => {}
  modify fun c => { c with lastStatus := some status }
  return status

def summary : LinkM StatusSummary := do
  let status ← poll false
  return .of status.status (← get).policy

def getRegister (offset : Word) : LinkM Word := do
  require .getRegister anyConnected
  match ← transact (.getRegister ⟨offset, 0⟩) .getRegister with
  | .getRegister r => return r.value
  | _ => return 0

/-- Writes a register; the result is the value that the board applied. -/
def setRegister (offset value : Word) : LinkM Word := do
  require .setRegister anyConnected
  match ← transact (.setRegister ⟨offset, value⟩) .setRegister with
  | .setRegister r => return r.value
  | _ => return value

def fullStatus : LinkM FullStatus := do
  require .statusFull anyConnected
  match ← transact .statusFull .statusFullReply with
  | .statusFullReply s => return s
  | _ => return .ofWords [] []

/-- Takes leave of the board and drops the connection, whatever the board answers. -/
def close : LinkM Unit := do
  if !(← get).isConnected then return
  try
    let _ ← transact .close .ack
    dropConnection
  catch e =>
    dropConnection
    throw e

def ignoringErrors (p : LinkM Unit) : LinkM Unit := tryCatch p fun _ => pure ()

/-- Stops and closes as far as possible. -/
def abort : LinkM Unit := do
  if !(← get).isConnected then return
  ignoringErrors stop
  ignoringErrors close

/-- The end of a client: closes if there is still a connection. -/
def release : LinkM Unit := do
  if (← get).connection.isSome then ignoringErrors close

end Client

/-- Runs a client's program on a state that answers the calls on its connections. -/
def LinkM.runOn {α σ : Type} (answer : (c : LinkCall) → σ → c.Answer × σ) (p : LinkM α) (c : Client)
    (s : σ) : Except LinkError α × Client × σ :=
  let ((result, c), s) := Program.run (I := linkInterface) answer (StateT.run (ExceptT.run p) c) s
  (result, c, s)

end Sequencer
