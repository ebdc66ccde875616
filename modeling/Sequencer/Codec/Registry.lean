import Sequencer.Codec.Check
import Sequencer.Codec.Converter
import Sequencer.Codec.Synthesizer
import Sequencer.Keyed

/-!
Codecs under their tags.
-/
namespace Sequencer

structure Registry where
  codecs : Keyed Codec

namespace Registry

def empty : Registry := ⟨Keyed.empty⟩

/-- Takes a codec in under its own tag, in the place of one that had the tag before. -/
def register (r : Registry) (codec : Codec) : Registry := ⟨r.codecs.insert codec.tag codec⟩

def tags (r : Registry) : List String := r.codecs.keys

def find (r : Registry) (tag : String) : Except CodecError Codec :=
  match r.codecs.get? tag with
  | some codec => .ok codec
  | none => .error (.unknownTag tag r.tags)

def testAll (r : Registry) : Except CodecError Unit := do
  for codec in r.codecs.values do
    codec.selfTest []

/-- The codecs of the parts that boards are built from. -/
def standard : Registry :=
  [Converter.generalCodec, Converter.dac712Codec, Converter.dac715Codec, Converter.dac7744Codec,
    Codec.digitalLine, FrequencyScale.standard.codec "DDS_FREQ",
    AmplitudeScale.standard.codec "DDS_AMP", PhaseScale.standard.codec "DDS_PHASE"].foldl
    register empty

end Registry

end Sequencer
