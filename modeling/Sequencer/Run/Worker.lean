import Sequencer.Run.Configuration
import Sequencer.Run.Interface
import Sequencer.Settings.Worker

/-!
The worker of one board: it takes the board through a run and meets its peers on the way.

With `k` the worker's counter before the run, a primary uploads its stream and posts `start (k+1)`
to every secondary, waits for `started (k+2)` from each of them, starts its board, polls it until it
ends, and waits for `stopped (k+3)` from each before it stops and verifies its own board. A
secondary waits for `start`, locks its board to the external clock, uploads and starts, posts
`started`, polls until the end, goes back to its own clock and posts `stopped`. A worker that fails
still posts its next event, marked as failed; a failed primary also posts a failed `stopped`. A message
that the bus refuses ends the worker's part as well, except for that last one.
The counter grows by three in every run, whatever happens.
-/
namespace Sequencer

structure Report where
  board : String
  role : Role
  /-- The counter before the run. -/
  counter : Word
  applied : ConfigFrame
  samples : Word
  time : Word
  cycles : Word
  /-- The clock was lost, which was to be ignored. -/
  clockLost : Bool
  /-- The secondaries that saw a problem. -/
  peerWarnings : List String

structure Worker where
  config : BoardConfig
  settings : WorkerSettings
  client : Client
  counter : Word
  /-- The number of runs with an ignored loss of the clock. -/
  clockLossWarnings : Nat := 0

/-- A worker's program, which keeps the worker's changes when it fails. -/
abbrev RunM (α : Type) := ExceptT WorkerError (StateT Worker (Program runInterface)) α

namespace Event

def start : String := "start"
def started : String := "started"
def stopped : String := "stopped"

end Event

namespace Worker

def barriersPerRun : Word := 3

/-- How often the status is polled while the external clock locks. -/
def lockPolls : Nat := 20

/-- A worker without a connection. -/
def new (config : BoardConfig) (settings : WorkerSettings) : Worker where
  config := config
  settings := settings
  client := ({ name := config.name, operationMs := settings.operationTimeoutMs } : Client)
    |>.setChunkBytes (UInt64.ofNat settings.chunkBytes)
  counter := config.initialCounter

def name (w : Worker) : String := w.config.name

def ask (c : RunCall) : RunM c.Answer :=
  ExceptT.lift (StateT.lift (Program.ask (I := runInterface) c))

def fail {α : Type} (fault : RunFault) : RunM α := do throw (.run (← get).name fault)

def invalid {α : Type} (fault : SettingsFault) : RunM α :=
  throw (.settings (.invalid fault))

/-- A call of the client; its errors name the board. -/
def onBoard {α : Type} (p : LinkM α) : RunM α := do
  let w ← get
  let (result, client) ← ExceptT.lift (StateT.lift (Program.ofLink (p.run.run w.client)))
  set { w with client }
  match result with
  | .ok a => return a
  | .error e => throw (.link w.name e)

/-- Goes on with the result, whether it is an error or not. -/
def attempt {α : Type} (p : RunM α) : RunM (Except WorkerError α) :=
  ExceptT.mk (Except.ok <$> p.run)

def ignoringErrors (p : RunM Unit) : RunM Unit := do
  let _ ← attempt p

def post (peer event : String) (counter : Word) (ok warn : Bool) : RunM Unit := do
  let w ← get
  match ← ask (.post peer ⟨event, w.name, counter, ok, warn⟩) with
  | .ok _ => return
  | .error e => throw (.barrier e)

def wait (peer event : String) (counter : Word) : RunM Message := do
  let w ← get
  let timeout := Duration.ofMilliseconds w.settings.barrierTimeoutMs
  match ← ask (.wait w.name ⟨peer, event, counter⟩ timeout) with
  | .ok message => return message
  | .error e => throw (.barrier e)

def pause : RunM Unit := do
  ask (.pause (Duration.ofMilliseconds (← get).settings.pollIntervalMs))

/-- Resets the board, over a new connection if there is none. -/
def connectAndReset : RunM Unit := do
  let w ← get
  if !w.client.isConnected then
    match ← ask .connect with
    | .error e => throw (.link w.name e)
    | .ok connection =>
      onBoard (Client.attach connection)
      onBoard Client.openBoard
  onBoard Client.reset

/-- Polls until the external clock has locked, at most so often. -/
def awaitLock : Nat → RunM Unit
  | 0 => fail .clockNotLocked
  | polls + 1 => do
    let status ← onBoard (Client.poll false)
    if status.status.isSet Status.externalLocked then return
    pause
    awaitLock polls

/-- Switches the board to the external clock. -/
def lockClock : RunM Unit := do
  let control ← onBoard (Client.getRegister Register.control)
  let _ ← onBoard (Client.setRegister Register.control (control.set Control.externalClock))
  awaitLock lockPolls

/-- Configures the board and sends the stream. -/
def upload (s : Stream) : RunM ConfigFrame := do
  let config ← (s.runningConfig : Except WorkerError ConfigFrame)
  modify fun w => { w with client := { w.client with policy := s.errorPolicy } }
  let applied ← onBoard (Client.configure config)
  onBoard (Client.write s.bytes)
  return applied

/-- The longest that a run may take; none if it repeats for ever. -/
def runLimit (settings : WorkerSettings) (s : Stream) (cycles : Word) : Option Nat :=
  if cycles = 0 then none
  else
    let period := (Float.ofNat s.stopTick + 1.0) / s.config.busRate
    (Duration.ofSeconds? (period * Float.ofNat cycles.toNat)).map fun span =>
      span + Duration.ofMilliseconds settings.barrierTimeoutMs
        + Duration.ofMilliseconds settings.runMarginMs

/-- Takes the `stopped` events that have come from peers without one so far. -/
def collectStopped (peers : List String) (counter : Word) (taken : List Message) :
    RunM (List Message) :=
  peers.foldlM (fun taken peer => do
    if taken.any fun m => m.sender == peer then return taken
    match ← ask (.poll (← get).name ⟨peer, Event.stopped, counter⟩) with
    | none => return taken
    | some (.ok message) => return taken ++ [message]
    | some (.error e) => throw (.barrier e)) taken

/-- How a board ended, with the `stopped` events that came before. -/
structure Ending where
  status : StatusFrame
  clockLost : Bool
  taken : List Message

def checkAborted : RunM Unit := do
  let isAborted : Bool ← ask .isAborted
  if isAborted then fail .aborted

/-- Fails when more than the limit has gone by. -/
def checkLimit (begun : Nat) (limit : Option Nat) : RunM Unit := do
  if let some limit := limit then
    let now : Nat ← ask .now
    if limit < now - begun then fail (.timeout limit)

/-- Polls the board until it ends, at most so often; a wait that needs more goes no further. -/
def awaitEnd (begun : Nat) (limit : Option Nat) (peers : List String) (counter : Word) :
    (polls : Nat) → (clockLost : Bool) → (taken : List Message) → RunM Ending
  | 0, _, _ => do nomatch ← ask .stall
  | polls + 1, clockLost, taken => do
    checkAborted
    let taken ← collectStopped peers counter taken
    checkLimit begun limit
    let status ← onBoard (Client.poll false)
    let summary := StatusSummary.of status.status (← get).client.policy
    let clockLost := clockLost || summary.clockLost
    match summary.state with
    | .ended => return ⟨status, clockLost, taken⟩
    | .failed => fail (.errorState summary.flags)
    | _ =>
      pause
      awaitEnd begun limit peers counter polls clockLost taken

def waitForEnd (polls : Nat) (limit : Option Nat) (peers : List String) (counter : Word) :
    RunM Ending := do
  awaitEnd (← ask .now) limit peers counter polls false []

/-- What a complete run of a stream must have reported. -/
def verify (s : Stream) (applied : ConfigFrame) (status : StatusFrame) : Except RunFault Unit :=
  let expected := s.rows.length * applied.cycles.toNat
  if status.samples.toNat ≠ expected then .error (.sampleCount expected status.samples.toNat)
  else if status.time.toNat ≠ s.stopTick then .error (.boardTime s.stopTick status.time.toNat)
  else .ok ()

def verified (s : Stream) (applied : ConfigFrame) (status : StatusFrame) : RunM Unit :=
  match verify s applied status with
  | .ok _ => return
  | .error fault => fail fault

def report (w : Worker) (base : Word) (applied : ConfigFrame) (e : Ending)
    (peerWarnings : List String) : Report :=
  ⟨w.name, w.config.role, base, applied, e.status.samples, e.status.time, e.status.cycles,
    e.clockLost, peerWarnings⟩

/-- Waits for one more `stopped` event, with the secondaries that warned and the first error. -/
def gatherNext (counter : Word) (state : List String × Option WorkerError) (peer : String) :
    RunM (List String × Option WorkerError) := do
  match ← attempt (wait peer Event.stopped counter) with
  | .ok message => return (if message.warn then state.1 ++ [peer] else state.1, state.2)
  | .error e => return (state.1, state.2 <|> some e)

/-- Waits for the `stopped` events that are still missing. The result is the secondaries that
warned and the first error. -/
def gatherStopped (peers : List String) (counter : Word) (taken : List Message) :
    RunM (List String × Option WorkerError) :=
  let early := (taken.filter Message.warn).map Message.sender
  let missing := peers.filter fun peer => !(taken.any fun m => m.sender == peer)
  missing.foldlM (gatherNext counter) (early, none)

def runPrimary (polls : Nat) (s : Stream) (base : Word) : RunM Report := do
  let secondaries := (← get).config.peers
  let prepared ← attempt do
    connectAndReset
    upload s
  secondaries.forM fun peer => post peer Event.start (base + 1) prepared.toBool false
  let applied ← (prepared : Except WorkerError ConfigFrame)
  secondaries.forM fun peer => do
    let _ ← wait peer Event.started (base + 2)
  onBoard (Client.start applied.cycles)
  let limit := runLimit (← get).settings s applied.cycles
  let ending ← waitForEnd polls limit secondaries (base + 3)
  let (warned, failure) ← gatherStopped secondaries (base + 3) ending.taken
  let stopped ← attempt (onBoard Client.stop)
  if let some e := failure then throw e
  let _ ← (stopped : Except WorkerError Unit)
  verified s applied ending.status
  return (← get).report base applied ending warned

/-- A secondary's way to a started board, once its primary is ready. -/
def joinStart (primary : String) (s : Stream) (counter : Word) : RunM ConfigFrame := do
  let _ ← wait primary Event.start counter
  connectAndReset
  lockClock
  let applied ← upload s
  onBoard (Client.start applied.cycles)
  return applied

/-- A secondary's wait for the end of a complete run. -/
def awaitComplete (polls : Nat) (primary : String) (s : Stream) (base : Word)
    (applied : ConfigFrame) : RunM Report := do
  let limit := runLimit (← get).settings s applied.cycles
  let ending ← waitForEnd polls limit [primary] (base + 3)
  verified s applied ending.status
  return (← get).report base applied ending []

/-- A secondary goes back to its own clock before the primary resets. -/
def leaveClock (applied : ConfigFrame) : RunM Unit := do
  let control := applied.control.clear Control.manualMask
  let _ ← onBoard (Client.setRegister Register.control control)
  onBoard Client.stop

/-- Whether a good run lost its clock. -/
def clockLostIn : Except WorkerError Report → Bool
  | .ok report => report.clockLost
  | .error _ => false

def runSecondary (polls : Nat) (s : Stream) (base : Word) : RunM Report := do
  let w ← get
  match w.config.peers with
  | [] => invalid (.noPrimary w.name)
  | primary :: _ =>
    let started ← attempt (joinStart primary s (base + 1))
    post primary Event.started (base + 2) started.toBool false
    let applied ← (started : Except WorkerError ConfigFrame)
    let result ← attempt (awaitComplete polls primary s base applied)
    let unlocked ← attempt (leaveClock applied)
    post primary Event.stopped (base + 3) (result.toBool && unlocked.toBool) (clockLostIn result)
    let _ ← (unlocked : Except WorkerError Unit)
    (result : Except WorkerError Report)

/-- Brings the board to rest as far as possible. -/
def abortBoard : RunM Unit := do
  let w ← get
  if !w.client.isConnected then return
  if w.settings.closeOnAbort then onBoard Client.abort
  else
    ignoringErrors (onBoard Client.stop)
    ignoringErrors do
      onBoard Client.reset
      let _ ← onBoard (Client.poll false)

/-- Ends the runs of all secondaries that can be told. -/
def releaseSecondaries (base : Word) : RunM Unit := do
  (← get).config.peers.forM fun peer =>
    ignoringErrors (post peer Event.stopped (base + 3) false false)

/-- Runs a stream once, with at most so many status polls until its end. -/
def run (polls : Nat) (s : Stream) : RunM Report := do
  let w ← get
  if s.name ≠ w.name then invalid (.foreignStream w.name s.name)
  let base := w.counter
  set { w with counter := base + barriersPerRun }
  let _ ← ask (.prune w.name (base + 1))
  let result ← attempt do
    match w.config.role with
    | .primary => runPrimary polls s base
    | .secondary => runSecondary polls s base
  match result with
  | .ok report =>
    if report.clockLost then
      modify fun w => { w with clockLossWarnings := w.clockLossWarnings + 1 }
    return report
  | .error e =>
    if w.config.role = .primary then releaseSecondaries base
    abortBoard
    throw e

/-- Runs a stream as one of a crew: a failure ends the runs of all others. -/
def runInCrew (polls : Nat) (s : Stream) : RunM Report := do
  match ← attempt (run polls s) with
  | .ok report => return report
  | .error e =>
    ask .abortAll
    throw e

end Worker

/-- A worker's program from a worker on. -/
def RunM.program {α : Type} (p : RunM α) (w : Worker) :
    Program runInterface (Except WorkerError α × Worker) :=
  p.run.run w

end Sequencer
