import Sequencer.Board.Basic

/-!
Streams: the rows that a board plays, each a tick and one word for every rack.

A stream also keeps what is needed to run it and to read the values of its channels back.
-/
namespace Sequencer

structure Row where
  tick : Nat
  words : List Word
  deriving DecidableEq, Repr

/-- What is kept of a channel to read its values back from the stream. -/
structure StreamChannel where
  kind : ChannelKind
  rack : Nat
  place : Place
  codec : Codec

structure Stream where
  config : BoardConfig
  rows : List Row
  finalValues : Keyed Float
  checksums : Keyed Word
  options : RunOptions
  channels : Keyed StreamChannel

namespace Stream

def name (s : Stream) : String := s.config.name

def ticks (s : Stream) : List Nat := s.rows.map Row.tick

/-- The column of a rack. -/
def rackWords (s : Stream) (rack : Nat) : List Word := s.rows.map fun r => r.words.getD rack 0

def stopTick (s : Stream) : Nat := (s.ticks.getLast?).getD 0

/-- Seconds of one repetition. -/
def duration (s : Stream) : Float := timeOf s.config.busRate s.stopTick

def bytesPerSample (s : Stream) : Nat := 4 * (s.config.racks + 1)

/-- Row after row, each word least significant byte first. -/
def bytes (s : Stream) : List Byte :=
  s.rows.flatMap fun r => (BitVec.ofNat 32 r.tick :: r.words).flatMap Word.littleEndian

/-- The values of a channel and their times in seconds. -/
def decodeChannel (s : Stream) (name : String) : Except BoardError (List (Float × Float)) :=
  match s.channels.get? name with
  | none => .error (.unknownChannel s.name name)
  | some c =>
    let words := s.ticks.zip (s.rackWords c.rack)
    .ok ((c.codec.decode c.place words).map fun v => (timeOf s.config.busRate v.1, v.2))

end Stream

end Sequencer
