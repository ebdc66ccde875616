import Sequencer.Proofs.Rehearsal
import Sequencer.Proofs.TeamHistory

/-!
The primary starts last: when it sends `start` to its board, every secondary has started in the same run.
-/
namespace Sequencer

/-- When the primary sends `start` in its run, every secondary has already posted a good `started` in
its own run of that number, after its board had acknowledged `start`. -/
theorem World.primary_starts_last {t : Team} {w : World} (reachable : Reachable t w) {n : Nat}
    {cycles : Word} {before after : List Record}
    (sent : w.log = before ++ ⟨t.primary.name, n, .requested (.start cycles)⟩ :: after) :
    ∀ m ∈ t.secondaries, ∃ earlier later message,
      before = earlier ++ ⟨m.name, n, .posted t.primary.name message⟩ :: later ∧
      message.sender = m.name ∧ message.event = Event.started ∧ message.counter = t.base n + 2 ∧
      message.ok = true ∧ Started (eventsOf earlier m.name n) := by
  have history : Lawful t w.log := reachable.isSound.lawful
  have starting := history _ _ _ sent
  have past : Lawful t before := Lawful.of_append (sent ▸ history)
  intro m member
  have everyone := starting.lawful
  rw [t.law_primary] at everyone
  have peer : m.name ∈ t.primary.config.peers := by
    rw [t.peers]
    exact List.mem_map_of_mem member
  obtain ⟨message, taken, met⟩ := everyone m.name peer
  obtain ⟨earlier, later, run, found, room, sender, _, started, _⟩ :=
    past.source member (mem_eventsOf.mp taken) met.sender
  obtain ⟨counter, acknowledged⟩ := started met.event
  obtain rfl : run = n := t.run_of_counter room starting.room (counter.symm.trans met.counter)
  exact ⟨earlier, later, message, found, sender, met.event, counter, met.ok, acknowledged met.ok⟩

def Record.isStart (name : String) (run : Nat) (r : Record) : Bool :=
  r.worker == name && r.run == run && match r.event with
    | .requested (.start _) => true
    | _ => false

theorem Record.eq_start {name : String} {run : Nat} {r : Record} (start : r.isStart name run) :
    ∃ cycles, r = ⟨name, run, .requested (.start cycles)⟩ := by
  obtain ⟨worker, n, event⟩ := r
  simp only [isStart, Bool.and_eq_true, beq_iff_eq] at start
  obtain ⟨⟨rfl, rfl⟩, kind⟩ := start
  split at kind
  · exact ⟨_, rfl⟩
  · cases kind

theorem Team.sample_starts_in_order : ∃ w before after cycles, World.Reachable sample w ∧
    w.log = before ++ ⟨sample.primary.name, 0, .requested (.start cycles)⟩ :: after ∧
    ∀ m ∈ sample.secondaries, ∃ earlier later message,
      before = earlier ++ ⟨m.name, 0, .posted sample.primary.name message⟩ :: later ∧
      message.sender = m.name ∧ message.event = Event.started ∧ message.counter = sample.base 0 + 2 ∧
      message.ok = true ∧ Started (eventsOf earlier m.name 0) := by
  have started : sampleEnd.log.any (Record.isStart "main" 0) = true := by decide +kernel
  obtain ⟨r, member, start⟩ := List.any_eq_true.mp started
  obtain ⟨cycles, rfl⟩ := Record.eq_start start
  obtain ⟨before, after, split⟩ := List.append_of_mem member
  exact ⟨sampleEnd, before, after, cycles, sampleEnd_reachable, split,
    World.primary_starts_last sampleEnd_reachable split⟩

end Sequencer
