import Sequencer.Stream.Compile

/-!
Experiments: boards by name, and the edits of their channels.

Levels belong to digital lines, ramps to everything else, sines to analog outputs, and each
sub-channel of a synthesizer has an edit of its own.
-/
namespace Sequencer

structure Experiment where
  boards : Keyed Board

namespace Experiment

def empty : Experiment := ⟨Keyed.empty⟩

def board (e : Experiment) (name : String) : Except BoardError Board :=
  match e.boards.get? name with
  | some b => .ok b
  | none => .error (.unknownBoard name)

def addBoard (e : Experiment) (config : BoardConfig) : Except BoardError Experiment := do
  if config.name ∈ e.boards.keys then
    throw (.duplicateName "experiment" config.name)
  return ⟨e.boards.insert config.name (← Board.new config)⟩

def editBoard (e : Experiment) (name : String) (edit : Board → Except BoardError Board) :
    Except BoardError Experiment := do
  return ⟨e.boards.insert name (← edit (← e.board name))⟩

def editChannel (e : Experiment) (board channel : String)
    (edit : Channel → Except BoardError Channel) : Except BoardError Experiment :=
  e.editBoard board fun b => b.editChannel channel edit

/-- An edit that belongs to some kinds of channels only. -/
def editKind (e : Experiment) (board channel : String) (kinds : List ChannelKind) (what : String)
    (edit : Channel → Except BoardError Channel) : Except BoardError Experiment :=
  e.editChannel board channel fun c =>
    if c.kind ∈ kinds then edit c else .error (.wrongChannelKind c.name what)

def addInstruction (e : Experiment) (board channel : String) (instruction : Instruction)
    (time : Float) (hold : Option Hold) : Except BoardError Experiment :=
  e.editChannel board channel fun c => c.add instruction time hold

/-- A value from a time on, for a duration or until the next instruction. -/
def constant (e : Experiment) (board channel : String) (time value : Float)
    (hold : Option Hold) : Except BoardError Experiment :=
  e.addInstruction board channel (.ofConstant value) time hold

private def level (e : Experiment) (board channel what : String) (time value : Float)
    (duration : Option Float) : Except BoardError Experiment :=
  e.editKind board channel [.digital] what fun c =>
    c.add (.ofConstant value) time (duration.map fun d => ⟨d, false⟩)

/-- A pulse to the high level. -/
def high (e : Experiment) (board channel : String) (time duration : Float) :
    Except BoardError Experiment :=
  e.level board channel "high" time 1.0 (some duration)

/-- A pulse to the low level. -/
def low (e : Experiment) (board channel : String) (time duration : Float) :
    Except BoardError Experiment :=
  e.level board channel "low" time 0.0 (some duration)

def goHigh (e : Experiment) (board channel : String) (time : Float) :
    Except BoardError Experiment :=
  e.level board channel "go_high" time 1.0 none

def goLow (e : Experiment) (board channel : String) (time : Float) :
    Except BoardError Experiment :=
  e.level board channel "go_low" time 0.0 none

def ramp (e : Experiment) (board channel : String) (time startVal endVal : Float) (hold : Hold) :
    Except BoardError Experiment :=
  e.editKind board channel [.analog, .frequency, .amplitude, .phase] "linramp" fun c =>
    c.add (.ofRamp startVal endVal time (time + hold.duration)) time (some hold)

def sine (e : Experiment) (board channel : String) (time : Float) (hold : Hold)
    (frequency : Float) (amplitude phase offset : Option Float) : Except BoardError Experiment :=
  e.editKind board channel [.analog] "sine" fun c =>
    c.add (.ofSine frequency amplitude phase offset) time (some hold)

/-- Sets a sub-channel of a synthesizer from a time on. -/
def tune (e : Experiment) (board synthesizer : String) (kind : ChannelKind) (suffix : String)
    (time value : Float) : Except BoardError Experiment :=
  e.editKind board s!"{synthesizer}_{suffix}" [kind] suffix fun c =>
    c.add (.ofConstant value) time none

def frequency (e : Experiment) (board synthesizer : String) (time value : Float) :
    Except BoardError Experiment :=
  e.tune board synthesizer .frequency "freq" time value

def amplitude (e : Experiment) (board synthesizer : String) (time value : Float) :
    Except BoardError Experiment :=
  e.tune board synthesizer .amplitude "amp" time value

def phase (e : Experiment) (board synthesizer : String) (time value : Float) :
    Except BoardError Experiment :=
  e.tune board synthesizer .phase "phase" time value

def isEdited (e : Experiment) : Bool := e.boards.values.any Board.isEdited

def clear (e : Experiment) : Experiment := ⟨e.boards.map Board.clear⟩

/-- The latest end over all boards, in seconds. -/
def endTime (e : Experiment) : Float :=
  (e.boards.values.map Board.endTime).foldl (fun a b => if a < b then b else a) 0.0

def compile (e : Experiment) (board : String) (stopTime : Option Float) :
    Except BoardError Stream := do
  (← e.board board).compile stopTime

/-- Every board for itself; the first board that fails decides the error. -/
def compileAll (e : Experiment) (stopTime : Option Float) :
    Except BoardError (List (String × Stream)) :=
  e.boards.entries.mapM fun (name, b) => return (name, ← b.compile stopTime)

end Experiment

end Sequencer
