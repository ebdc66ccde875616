import Sequencer.Proofs.Rehearsal
import Sequencer.Proofs.TeamHistory

/-!
What a good end of the primary's run says about the runs of its secondaries.
-/
namespace Sequencer

/-- A secondary's part in a run that ended well, with its last message, from the records before the
primary stopped. -/
structure EndsWell (t : Team) (n : Nat) (log early : List Record) (m : Member) (message : Message) :
    Prop where
  sender : message.sender = m.name
  event : message.event = Event.stopped
  counter : message.counter = t.base n + 3
  ok : message.ok = true
  /-- The primary has taken this message, and no other `stopped` of this secondary. -/
  taken : (stoppedIn (eventsOf early t.primary.name n)).filter (·.sender == m.name) = [message]
  posted : ∃ earlier later, early = earlier ++ ⟨m.name, n, .posted t.primary.name message⟩ :: later ∧
    Completed (eventsOf earlier m.name n)
  posted_once : ∀ recipient other, ⟨m.name, n, .posted recipient other⟩ ∈ log →
    other.event = Event.stopped → other = message
  returned : ∀ result, ⟨m.name, n, .returned result⟩ ∈ log →
    ∃ report, result = .ok report ∧ report.clockLost = message.warn

theorem filter_eq_singleton {α β : Type} [BEq β] [LawfulBEq β] {f : α → β} {list : List α} {a : α}
    (distinct : (list.map f).Nodup) (member : a ∈ list) : list.filter (f · == f a) = [a] := by
  induction list with
  | nil => cases member
  | cons first rest ih =>
    obtain ⟨absent, distinct⟩ := List.nodup_cons.mp distinct
    rcases List.mem_cons.mp member with rfl | later
    · rw [List.filter_cons_of_pos (by simp), List.filter_eq_nil_iff.mpr]
      intro other found
      have different : f other ≠ f a := fun same => absent (same ▸ List.mem_map_of_mem found)
      simpa using different
    · have different : f first ≠ f a := fun same => absent (same ▸ List.mem_map_of_mem later)
      rw [List.filter_cons_of_neg (by simpa using different)]
      exact ih distinct later

theorem mem_stoppedIn {events : List RunEvent} {message : Message} :
    message ∈ stoppedIn events ↔ .took message ∈ events ∧ message.event = Event.stopped := by
  simp only [stoppedIn, List.mem_filterMap]
  constructor
  · rintro ⟨x, member, found⟩
    split at found
    · split at found
      · rename_i stopped
        obtain rfl := Option.some.inj found
        exact ⟨member, stopped⟩
      · cases found
    · cases found
  · rintro ⟨member, stopped⟩
    exact ⟨_, member, if_pos stopped⟩

/-- A good `stopped` of a secondary that the primary has taken settles the secondary's run of the same
number. -/
theorem Lawful.ends_well {t : Team} {m : Member} {n : Nat} {message : Message} {early rest : List Record}
    (history : Lawful t (early ++ rest)) (member : m ∈ t.secondaries) (room : t.HasRoom n)
    (distinct : ((stoppedIn (eventsOf early t.primary.name n)).map Message.sender).Nodup)
    (took : message ∈ stoppedIn (eventsOf early t.primary.name n)) (sender : message.sender = m.name)
    (awaited : Awaited.IsMet ⟨message.sender, Event.stopped, t.base n + 3⟩ message) :
    EndsWell t n (early ++ rest) early m message := by
  obtain ⟨taken, stopped⟩ := mem_stoppedIn.mp took
  obtain ⟨earlier, later, run, posted, room', _, _, _, truth⟩ :=
    history.of_append.source member (mem_eventsOf.mp taken) sender
  obtain ⟨counter, _, completed⟩ := truth stopped
  -- the counter of the message tells the run in which it was posted
  obtain rfl : run = n := t.run_of_counter room' room (counter.symm.trans awaited.counter)
  have at_post : early ++ rest = earlier ++ ⟨m.name, run, .posted t.primary.name message⟩ ::
      (later ++ rest) := by
    rw [posted, List.append_assoc, List.cons_append]
  refine ⟨sender, stopped, counter, awaited.ok, ?_, ⟨earlier, later, posted, completed awaited.ok⟩,
    ?_, ?_⟩
  · rw [← sender]
    exact filter_eq_singleton distinct took
  · intro recipient other found again
    obtain ⟨past, future, at_other⟩ := List.append_of_mem found
    exact history.posts_stopped_once member at_post at_other stopped again
  · intro result found
    obtain ⟨past, future, at_return⟩ := List.append_of_mem found
    have settled := (history _ _ _ at_return).lawful
    rw [t.law_secondary member] at settled
    exact settled _ message (history.posted_before_return at_post at_return) stopped awaited.ok

/-- When the run of the primary returns a report, then before it stopped its board every secondary had
verified its own run, left the clock of the primary and stopped, which nothing can undo. The primary
has taken one `stopped` message of everyone, and its warnings are those of these messages. -/
theorem World.good_end_is_everyones {t : Team} {w : World} (reachable : Reachable t w) {n : Nat}
    {report : Report} {before after : List Record}
    (returned : w.log = before ++ ⟨t.primary.name, n, .returned (.ok report)⟩ :: after) :
    ∃ early late, before = early ++ ⟨t.primary.name, n, .requested .stop⟩ :: late ∧
      .requested .stop ∉ eventsOf early t.primary.name n ∧
      stoppedIn (eventsOf late t.primary.name n) = [] ∧
      (∀ m ∈ t.secondaries, ∃ message, EndsWell t n w.log early m message ∧
        (m.name ∈ report.peerWarnings ↔ message.warn = true)) ∧
      report.peerWarnings.Nodup ∧ ∀ name ∈ report.peerWarnings, ∃ m ∈ t.secondaries, m.name = name := by
  have history : Lawful t w.log := reachable.isSound.lawful
  have returning := history _ _ _ returned
  have concluded := returning.lawful
  rw [t.law_primary] at concluded
  obtain ⟨events, split, unstopped, everyone, met, warnings⟩ := concluded
  obtain ⟨early, late, rfl, same, rest⟩ := eventsOf_split split
  obtain rfl := same
  rw [List.append_assoc] at returned
  have distinct : ((stoppedIn (eventsOf early t.primary.name n)).map Message.sender).Nodup := by
    rw [everyone.nodup_iff, t.peers]
    exact (List.nodup_cons.mp t.unique).2
  refine ⟨early, late, rfl, fun found => unstopped _ found rfl, ?_, fun m member => ?_, ?_, ?_⟩
  · rw [rest]
    rfl
  · have peer : m.name ∈ t.primary.config.peers := by
      rw [t.peers]
      exact List.mem_map_of_mem member
    obtain ⟨message, took, sender⟩ := List.mem_map.mp (everyone.mem_iff.mpr peer)
    rw [returned] at history ⊢
    refine ⟨message,
      history.ends_well member returning.room distinct took sender (met message took), ?_⟩
    rw [warnings, List.mem_map]
    constructor
    · intro ⟨other, warned, same⟩
      obtain ⟨took', warn⟩ := List.mem_filter.mp warned
      obtain rfl := List.inj_on_of_nodup_map distinct took' took (same.trans sender.symm)
      exact warn
    · intro warn
      exact ⟨message, List.mem_filter.mpr ⟨took, warn⟩, sender⟩
  · rw [warnings]
    exact distinct.sublist (List.filter_sublist.map _)
  · intro name warned
    rw [warnings] at warned
    obtain ⟨message, found, rfl⟩ := List.mem_map.mp warned
    have peer := everyone.mem_iff.mp (List.mem_map_of_mem (List.mem_filter.mp found).1)
    rw [t.peers] at peer
    exact List.mem_map.mp peer

def Record.isGoodReturn (name : String) (run : Nat) (r : Record) : Bool :=
  r.worker == name && r.run == run && match r.event with
    | .returned (.ok _) => true
    | _ => false

theorem Record.eq_goodReturn {name : String} {run : Nat} {r : Record} (good : r.isGoodReturn name run) :
    ∃ report, r = ⟨name, run, .returned (.ok report)⟩ := by
  obtain ⟨worker, n, event⟩ := r
  simp only [isGoodReturn, Bool.and_eq_true, beq_iff_eq] at good
  obtain ⟨⟨rfl, rfl⟩, kind⟩ := good
  split at kind
  · exact ⟨_, rfl⟩
  · cases kind

theorem Team.sample_ends_well : ∃ w before after report, World.Reachable sample w ∧
    w.log = before ++ ⟨sample.primary.name, 0, .returned (.ok report)⟩ :: after ∧
    ∃ early late, before = early ++ ⟨sample.primary.name, 0, .requested .stop⟩ :: late ∧
      .requested .stop ∉ eventsOf early sample.primary.name 0 ∧
      stoppedIn (eventsOf late sample.primary.name 0) = [] ∧
      (∀ m ∈ sample.secondaries, ∃ message, EndsWell sample 0 w.log early m message ∧
        (m.name ∈ report.peerWarnings ↔ message.warn = true)) ∧
      report.peerWarnings.Nodup ∧
      ∀ name ∈ report.peerWarnings, ∃ m ∈ sample.secondaries, m.name = name := by
  have ended : sampleEnd.log.any (Record.isGoodReturn "main" 0) = true := by decide +kernel
  obtain ⟨r, member, good⟩ := List.any_eq_true.mp ended
  obtain ⟨report, rfl⟩ := Record.eq_goodReturn good
  obtain ⟨before, after, split⟩ := List.append_of_mem member
  exact ⟨sampleEnd, before, after, report, sampleEnd_reachable, split,
    World.good_end_is_everyones sampleEnd_reachable split⟩

end Sequencer
