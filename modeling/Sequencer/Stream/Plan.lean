import Sequencer.Board.Basic

/-!
What each device wants on the bus: its changes, as words with their ticks.

A written value changes the bus if its words differ from those of the value before it, and the first
value always does. The lines of a digital bank share one word. Each line has a cursor into its samples
and the value that it holds; at every tick at which a line is written the word is made anew.
-/
namespace Sequencer

/-- A word on the bus, with the channels behind it and their values before and after. -/
structure Change where
  tick : Nat
  word : Word
  sources : List (String × Option Float × Option Float)

structure Plan where
  rack : Nat
  changes : List Change
  /-- The last tick that a written value takes, changed or not. -/
  lastTick : Option Nat

/-- Ascending, each once. -/
def sortedTicks (ticks : List Nat) : List Nat := (ticks.mergeSort (· ≤ ·)).eraseReps

namespace Channel

/-- Fails if a value is out of the tolerance of the codec. -/
def checkValue (c : Channel) (value : Float) : Except BoardError Unit :=
  match c.codec.check value (c.codec.toRaw value) with
  | .ok () => .ok ()
  | .error (.outOfTolerance _ value decoded tolerance) =>
    .error (.codecOutOfTolerance c.name value decoded tolerance)
  | .error e => .error (.codec e)

def checkValues (c : Channel) (check : Bool) (values : List Float) : Except BoardError Unit :=
  if check then values.forM c.checkValue else .ok ()

def words (c : Channel) (value : Float) : List Word := c.codec.valueWords c.place value

/-- What a line adds to the word of its bank. -/
def lineData (c : Channel) (value : Float) : Nat := ((c.words value).head?.map Word.data).getD 0

/-- The changes among written values, given the value before them and its words. -/
def changesFrom (c : Channel) : Option (List Word × Float) → List (Nat × Float) → List Change
  | _, [] => []
  | previous, (tick, value) :: rest =>
    let words := c.words value
    let changes :=
      if previous.map Prod.fst = some words then []
      else words.mapIdx fun j word =>
        ⟨tick + j, word, [(c.name, previous.map Prod.snd, some value)]⟩
    changes ++ c.changesFrom (some (words, value)) rest

def changes (c : Channel) : List Change := c.changesFrom none c.samples

/-- The last tick of the last value. -/
def lastTick (c : Channel) : Option Nat :=
  c.samples.getLast?.map fun s => s.1 + c.codec.wordsPerValue - 1

end Channel

/-- A line of a bank: its samples from the cursor on, and the value of the last one before. -/
structure LineCursor where
  line : Channel
  rest : List (Nat × Float)
  held : Option Float

namespace LineCursor

/-- In front of the first sample. -/
def start (line : Channel) : LineCursor := ⟨line, line.samples, none⟩

/-- The value on the line, its default before anything is written. -/
def value (l : LineCursor) : Float := l.held.getD l.line.default

/-- The line with its values before and after, if its next sample is for the tick. -/
def source? (l : LineCursor) (tick : Nat) : Option (String × Option Float × Option Float) :=
  match l.rest with
  | (next, value) :: _ => if next = tick then some (l.line.name, l.held, some value) else none
  | [] => none

/-- Past the next sample, if that is for the tick. -/
def advance (l : LineCursor) (tick : Nat) : LineCursor :=
  match l.rest with
  | (next, value) :: rest => if next = tick then ⟨l.line, rest, some value⟩ else l
  | [] => l

end LineCursor

/-- What the lines of a bank come to at one tick. -/
structure BankSample where
  lines : List LineCursor := []
  sources : List (String × Option Float × Option Float) := []
  data : Nat := 0

namespace BankSample

/-- Takes in the next line. -/
def add (tick : Nat) (now : BankSample) (l : LineCursor) : BankSample :=
  let after := l.advance tick
  { lines := now.lines ++ [after]
    sources := now.sources ++ (l.source? tick).toList
    data := now.data ||| after.line.lineData after.value }

def visit (check : Bool) (tick : Nat) (now : BankSample) (l : LineCursor) :
    Except BoardError BankSample := do
  l.line.checkValues check [(l.advance tick).value]
  return now.add tick l

end BankSample

/-- A bank between two ticks: its lines, its last word, and the changes so far. -/
structure BankState where
  lines : List LineCursor
  word : Option Word := none
  changes : Array Change := #[]

namespace BankState

/-- A word that is not the one before is a change. -/
def put (address tick : Nat) (s : BankState) (now : BankSample) : BankState :=
  let word := Word.pack address now.data
  { lines := now.lines
    word := some word
    changes := if s.word = some word then s.changes else s.changes.push ⟨tick, word, now.sources⟩ }

def visit (address : Nat) (check : Bool) (s : BankState) (tick : Nat) : Except BoardError BankState := do
  let now ← s.lines.foldlM (BankSample.visit check tick) {}
  return s.put address tick now

end BankState

namespace Device

def planBank (d : Device) (check : Bool) : Except BoardError Plan := do
  let ticks := sortedTicks (d.channels.flatMap fun c => c.samples.map Prod.fst)
  let last ← ticks.foldlM (BankState.visit d.address check) ⟨d.channels.map .start, none, #[]⟩
  return ⟨d.rack, last.changes.toList, ticks.getLast?⟩

def planChannels (d : Device) (check : Bool) : Except BoardError Plan := do
  for c in d.channels do
    c.checkValues check (c.samples.map Prod.snd)
  return ⟨d.rack, d.channels.flatMap Channel.changes, (d.channels.filterMap Channel.lastTick).max?⟩

def plan (d : Device) (check : Bool) : Except BoardError Plan :=
  if d.sharesAddress then d.planBank check else d.planChannels check

end Device

end Sequencer
