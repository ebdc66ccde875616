import Sequencer.Codec.Registry
import Sequencer.Settings.Value

/-!
Codecs by a description: the type and its parameters, or only the tag of a standard codec.
-/
namespace Sequencer

def Codec.ofValue? (v : Value) : Option (Except CodecError Codec) := do
  let tag ← v.need? "tag" Value.text?
  let bits ← v.orElse? "bits" 0 Value.nat64?
  let number (name : String) := v.need? name Value.number?
  match v.get? "type" with
  | none => return Registry.standard.find tag
  | some (.text "dac") =>
    let d : Converter Float := ⟨bits, ← number "min", ← number "max",
      ← v.need? "span" Value.text? >>= Span.ofName?,
      ← v.need? "coding" Value.text? >>= Coding.ofName?⟩
    return .ok (d.codec tag d.endVectors)
  | some (.text "dds_freq") =>
    return .ok ((⟨← number "sysclk", bits⟩ : FrequencyScale Float).codec tag)
  | some (.text "dds_amp") =>
    let point (name : String) := v.need? name (Value.pair? Value.number? Value.number?)
    return .ok ((AmplitudeScale.ofPowers bits (← point "cal0") (← point "cal1")).codec tag)
  | some (.text "dds_phase") => return .ok ((⟨bits⟩ : PhaseScale).codec tag)
  | _ => none

end Sequencer
