import Mathlib.Data.List.Forall2
import Mathlib.Data.List.GetD
import Mathlib.Data.List.Perm.Basic
import Sequencer.Proofs.Emission

/-!
The order in which markers were set on a rack does not matter to the compiler. It asks for their ticks, for those of one
tick laid over each other, and for the number of strobes up to a tick.
-/
namespace Sequencer

theorem sortedTicks_of_perm {ticks others : List Nat} (same : ticks.Perm others) :
    sortedTicks ticks = sortedTicks others := by
  refine (sortedTicks_spec ticks).1.eq_of_mem_iff (sortedTicks_spec others).1 fun tick => ?_
  rw [(sortedTicks_spec ticks).2, (sortedTicks_spec others).2, same.mem_iff]

namespace MarkerTrack
variable {t u : MarkerTrack}

/-- The same markers in any order. -/
def Alike (t u : MarkerTrack) : Prop := t.marks.Perm u.marks

theorem Alike.refl (t : MarkerTrack) : t.Alike t := List.Perm.refl _

namespace Alike

theorem ticks (alike : t.Alike u) : t.ticks.Perm u.ticks := alike.map _

theorem at_tick (alike : t.Alike u) (tick : Nat) : (t.at? tick).Perm (u.at? tick) := (alike.filter _).map _

theorem hasStrobe (alike : t.Alike u) : t.hasStrobe = u.hasStrobe := alike.any_eq

theorem endTick (alike : t.Alike u) : t.endTick = u.endTick := (alike.ticks.map _).foldl_eq 0

theorem markerBits (alike : t.Alike u) (strobePosition tick : Nat) :
    Board.markerBits t strobePosition tick = Board.markerBits u strobePosition tick :=
  ((alike.at_tick tick).filter _).foldl_eq' (fun m _ n _ w => by
    rw [BitVec.or_assoc, BitVec.or_assoc, BitVec.or_comm (m.mask _)]) 0

end Alike

/-- Markers may be set in either order. -/
theorem mark_comm (t : MarkerTrack) (tick tick' : Nat) (marker marker' : Marker) :
    ((t.mark tick marker).mark tick' marker').Alike ((t.mark tick' marker').mark tick marker) := by
  unfold mark
  by_cases set : (tick, marker) ∈ t.marks <;> by_cases set' : (tick', marker') ∈ t.marks
  · simp [set, set', Alike.refl]
  · simp [set, set', Alike.refl]
  · simp [set, set', Alike.refl]
  · by_cases same : (tick, marker) = (tick', marker')
    · simp [set', same, Alike.refl]
    · have other : (tick', marker') ≠ (tick, marker) := fun other => same other.symm
      simp only [set, set', ↓reduceIte, List.mem_append, List.mem_singleton, same, other, or_false, Alike,
        List.append_assoc]
      exact List.perm_append_comm.append_left t.marks

theorem Alike.mark (alike : t.Alike u) (tick : Nat) (marker : Marker) : (t.mark tick marker).Alike (u.mark tick marker) := by
  unfold MarkerTrack.mark
  by_cases set : (tick, marker) ∈ t.marks
  · rw [if_pos set, if_pos (alike.mem_iff.mp set)]
    exact alike
  · rw [if_neg set, if_neg (mt alike.mem_iff.mpr set)]
    exact List.Perm.append_right _ alike

end MarkerTrack

/-! ### All tracks -/

theorem alike_refl (tracks : List MarkerTrack) : List.Forall₂ MarkerTrack.Alike tracks tracks :=
  List.forall₂_same.mpr fun t _ => .refl t

theorem alike_trans {tracks middle others : List MarkerTrack} (alike : List.Forall₂ MarkerTrack.Alike tracks middle)
    (alike' : List.Forall₂ MarkerTrack.Alike middle others) : List.Forall₂ MarkerTrack.Alike tracks others := by
  induction alike generalizing others with
  | nil => exact alike'
  | cons here _ ih =>
    cases alike' with
    | cons here' rest' => exact .cons (List.Perm.trans here here') (ih rest')

theorem modify_alike {tracks others : List MarkerTrack} {f : MarkerTrack → MarkerTrack}
    (respects : ∀ t u : MarkerTrack, t.Alike u → (f t).Alike (f u)) (rack : Nat)
    (alike : List.Forall₂ MarkerTrack.Alike tracks others) :
    List.Forall₂ MarkerTrack.Alike (tracks.modify rack f) (others.modify rack f) := by
  induction alike generalizing rack with
  | nil => cases rack <;> exact .nil
  | cons here rest ih =>
    cases rack with
    | zero => exact .cons (respects _ _ here) rest
    | succ rack => exact .cons here (ih rack)

theorem modify_comm {f g : MarkerTrack → MarkerTrack} (commute : ∀ t, (g (f t)).Alike (f (g t)))
    (tracks : List MarkerTrack) (rack rack' : Nat) :
    List.Forall₂ MarkerTrack.Alike ((tracks.modify rack f).modify rack' g) ((tracks.modify rack' g).modify rack f) := by
  induction tracks generalizing rack rack' with
  | nil => cases rack <;> cases rack' <;> exact .nil
  | cons t rest ih =>
    cases rack with
    | zero =>
      cases rack' with
      | zero => exact .cons (commute t) (alike_refl rest)
      | succ rack' => exact alike_refl _
    | succ rack =>
      cases rack' with
      | zero => exact alike_refl _
      | succ rack' => exact .cons (.refl t) (ih rack rack')

/-- Tracks that agree up to the order of their markers agree in all that does not depend on that order. -/
theorem map_alike {α : Type} {f : MarkerTrack → α} (respects : ∀ t u : MarkerTrack, t.Alike u → f t = f u)
    {tracks others : List MarkerTrack} (alike : List.Forall₂ MarkerTrack.Alike tracks others) :
    tracks.map f = others.map f := by
  induction alike with
  | nil => rfl
  | cons here _ ih => rw [List.map_cons, List.map_cons, respects _ _ here, ih]

theorem flatMap_ticks_alike {tracks others : List MarkerTrack} (alike : List.Forall₂ MarkerTrack.Alike tracks others) :
    (tracks.flatMap MarkerTrack.ticks).Perm (others.flatMap MarkerTrack.ticks) := by
  induction alike with
  | nil => exact List.Perm.refl _
  | cons here _ ih => exact here.ticks.append ih

namespace Board
variable {b c : Board}

/-- The same board up to the order in which the markers of each rack were set. -/
structure Alike (b c : Board) : Prop where
  others : c = { b with tracks := c.tracks }
  tracks : List.Forall₂ MarkerTrack.Alike b.tracks c.tracks

namespace Alike

theorem refl (b : Board) : b.Alike b := ⟨rfl, alike_refl b.tracks⟩

theorem config (alike : b.Alike c) : c.config = b.config := by rw [alike.others]

theorem devices (alike : b.Alike c) : c.devices = b.devices := by
  rw [alike.others]
  rfl

theorem any_track (alike : b.Alike c) {p : MarkerTrack → Bool}
    (respects : ∀ t u : MarkerTrack, t.Alike u → p t = p u) : c.tracks.any p = b.tracks.any p := by
  have same := congrArg (fun answers => answers.any id) (map_alike respects alike.tracks)
  simpa only [List.any_map, Function.id_comp] using same.symm

theorem on_rack (alike : b.Alike c) {α : Type} {f : MarkerTrack → α}
    (respects : ∀ t u : MarkerTrack, t.Alike u → f t = f u) (rack : Nat) :
    f (c.tracks.getD rack .empty) = f (b.tracks.getD rack .empty) := by
  rw [← List.getD_map (f := f), ← List.getD_map (f := f), map_alike respects alike.tracks]

theorem markerTicks (alike : b.Alike c) : c.markerTicks.Perm b.markerTicks := (flatMap_ticks_alike alike.tracks).symm

theorem endTick (alike : b.Alike c) : c.endTick = b.endTick := by
  rw [Board.endTick, Board.endTick, alike.devices, map_alike (fun _ _ same => same.endTick) alike.tracks]

theorem stopTick (alike : b.Alike c) (plans : List Plan) (stopTime : Option Float) :
    c.stopTick plans stopTime = b.stopTick plans stopTime := by
  have earliest : c.earliestStop plans = b.earliestStop plans := by
    rw [earliestStop, earliestStop, alike.endTick]
    exact (((alike.markerTicks.append_left _).map _).append_right _).foldl_eq 0
  unfold Board.stopTick name
  rw [earliest, alike.config]

theorem unionTicks (alike : b.Alike c) (plans : List Plan) (stop : Nat) : c.unionTicks plans stop = b.unionTicks plans stop :=
  sortedTicks_of_perm (((alike.markerTicks.append_left _).cons stop).cons 0)

theorem marked_iff (alike : b.Alike c) (rack tick : Nat) (m : Marker) : c.marked rack tick m ↔ b.marked rack tick m := by
  have same := alike.on_rack (f := fun t => decide (m ∈ t.at? tick))
    (fun _ _ same => decide_eq_decide.mpr (same.at_tick tick).mem_iff) rack
  exact decide_eq_decide.mp same

theorem strobeSet (alike : b.Alike c) (row tick rack : Nat) : c.strobeSet row tick rack = b.strobeSet row tick rack := by
  simp only [Board.strobeSet, strobesUpTo, alike.config, alike.marked_iff]

theorem rowWord (alike : b.Alike c) (plans : List Plan) (ticks : List Nat) (row tick rack : Nat) :
    c.rowWord plans ticks row tick rack = b.rowWord plans ticks row tick rack := by
  have bits := alike.on_rack (fun _ _ same => same.markerBits b.config.strobePosition tick) rack
  simp only [Board.rowWord, alike.config, bits, alike.strobeSet]

theorem rows (alike : b.Alike c) (plans : List Plan) (ticks : List Nat) : c.rows plans ticks = b.rows plans ticks := by
  simp only [Board.rows, racks, alike.config, alike.rowWord]

theorem sound (alike : b.Alike c) (sound : Sound b) : Sound c := by
  have distinct : c.tracks.any (fun t => !decide t.marks.Nodup) = false := by
    rw [alike.any_track fun t u same => by rw [decide_eq_decide.mpr same.nodup_iff]]
    simpa using sound.marks
  rw [alike.others]
  exact ⟨sound.strobe, alike.tracks.length_eq ▸ sound.tracks, sound.devices, sound.slots, sound.names, sound.addresses,
    by simpa using distinct⟩

/-- The compiler makes the same of both, whatever it makes. -/
theorem compile (alike : b.Alike c) (sound : Sound b) (stopTime : Option Float) :
    c.compile stopTime = b.compile stopTime := by
  have plans : c.plans = b.plans := by rw [Board.plans, alike.devices, alike.config, Board.plans]
  have conflicts : ∀ plans ticks, c.conflicts plans ticks = b.conflicts plans ticks := fun plans ticks => by
    rw [alike.others]
    rfl
  have perChannel : ∀ {α : Type} (f : Channel → α), c.perChannel f = b.perChannel f := fun f => by
    rw [Board.perChannel, channels, alike.devices, Board.perChannel, channels]
  have strobes := alike.any_track fun _ _ same => same.hasStrobe
  have first := alike.any_track fun _ _ same => (same.at_tick 0).contains_eq (a := Marker.strobe)
  have options : c.options = b.options := by rw [alike.others]
  have streams : ∀ rows, c.streamWith rows = b.streamWith rows := fun rows => by
    simp only [streamWith, alike.config, perChannel, options]
  rw [compile_eq_compiled sound, compile_eq_compiled (alike.sound sound)]
  simp only [compiled, name, alike.config, strobes, first, plans, alike.stopTick, alike.unionTicks, conflicts,
    alike.rows, streams]

end Alike

end Board

end Sequencer
