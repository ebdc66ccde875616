import Sequencer.Experiment
import Sequencer.Run.Crew

/-!
Running the boards of an experiment, again and again.

All boards start a repetition together, each with its own worker. A repetition fails with the error
of its cause: a board that failed by itself, rather than one that only followed another.
-/
namespace Sequencer

/-- An experiment with the settings of its workers. -/
structure Laboratory where
  experiment : Experiment := .empty
  settings : WorkerSettings := {}
  isAborted : Bool := false

namespace Laboratory

/-- A laboratory with every board of the settings. -/
def ofSettings (settings : WorkerSettings) : Except BoardError Laboratory := do
  let experiment ← settings.boards.values.foldlM Experiment.addBoard .empty
  return { experiment, settings }

/-- Boards that are not simulated are out of reach: they refuse every connection. -/
def networkOf (config : BoardConfig) (simulate : Bool) : Network where
  board := { name := config.name }
  upcoming := if simulate then [] else [.error (.socket .connectionRefused)]

/-- A worker with the stream that it runs. -/
structure Station where
  worker : Worker
  stream : Stream
  network : Network

def stations (l : Laboratory) (streams : List (String × Stream)) : List Station :=
  streams.map fun (_, s) =>
    ⟨.new s.config l.settings, s, networkOf s.config (s.options.simulate.getD false)⟩

/-- The first of the errors that are nearest to a cause. -/
def cause? {α : Type} (results : List (Except WorkerError α)) : Option WorkerError :=
  results.foldl (fun found result =>
    match found, result with
    | found, .ok _ => found
    | none, .error e => some e
    | some f, .error e => if e.distance < f.distance then some e else some f) none

/-- Runs every station once. -/
def runOnce (fuel : Nat) (stations : List Station) (p : Premises) :
    Option (List (Except WorkerError Report) × List Station × Premises) := do
  let seats := stations.map fun s =>
    (⟨(Worker.runInCrew fuel s.stream).program s.worker, s.network, none⟩ :
      Seat (Except WorkerError Report × Worker))
  let (ends, p) ← Crew.run fuel seats p
  let stations := stations.zipWith (fun s ((_, worker), network) => { s with worker, network }) ends
  return (ends.map fun e => e.1.1, stations, p)

/-- The reports of one repetition, each under the name of its board. -/
abbrev Reports := List (String × Report)

/-- Repetitions until one fails or a run is aborted. -/
def repeatRun (fuel : Nat) : (repetitions : Nat) → List Station → Premises →
    Option (Except WorkerError (List Reports) × Premises)
  | 0, _, p => some (.ok [], p)
  | repetitions + 1, stations, p => do
    let (results, stations, p) ← runOnce fuel stations p
    match cause? results with
    | some e => return (.error e, p)
    | none =>
      let reports := results.filterMap fun result =>
        match result with
        | .ok report => some (report.board, report)
        | .error _ => none
      if p.isAborted then return (.ok [reports], p)
      let (rest, p) ← repeatRun fuel repetitions stations p
      return ((reports :: ·) <$> rest, p)

/-- Compiles every board and runs them all. -/
def run (fuel : Nat) (l : Laboratory) (repetitions : Nat) :
    Option (Except WorkerError (List Reports) × Laboratory) :=
  match l.experiment.compileAll none with
  | .error e => some (.error (.compile e), l)
  | .ok streams => do
    let (result, p) ← repeatRun fuel repetitions (l.stations streams) {}
    return (result, { l with isAborted := p.isAborted })

/-- Makes a run end at the next poll of every board. -/
def abort (l : Laboratory) : Laboratory := { l with isAborted := true }

/-- Connects to a board, resets it and takes leave again. -/
def resetBoard (l : Laboratory) (name : String) : Except WorkerError Unit :=
  match l.experiment.board name with
  | .error e => .error (.compile e)
  | .ok b =>
    let options := b.config.defaults.merge b.options
    match (networkOf b.config (options.simulate.getD false)).dial with
    | (.error e, _) => .error (.link name e)
    | (.ok connection, n) =>
      let client : Client := { name, operationMs := l.settings.operationTimeoutMs
                               connection := some connection, state := .connected }
      let session : LinkM Unit := do
        Client.openBoard
        Client.reset
        let _ ← Client.poll false
        Client.close
      match (n.runClient session client).1 with
      | .ok _ => .ok ()
      | .error e => .error (.link name e)

def resetBoards (l : Laboratory) : Except WorkerError Unit :=
  l.experiment.boards.keys.forM l.resetBoard

end Laboratory

end Sequencer
