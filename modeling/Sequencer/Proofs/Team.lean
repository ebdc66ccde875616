import Sequencer.Proofs.Mail
import Sequencer.Run.Worker

/-!
A primary and its secondaries, run after run, on shared mailboxes.

Every worker goes through its runs at its own pace, one call at a time, in any order among the workers.
Boards, clocks and the abort flag answer as they like; mailboxes answer with what is in them. The
world keeps a record of everything that happened.
-/
namespace Sequencer

structure Member where
  config : BoardConfig
  settings : WorkerSettings

namespace Member

def name (m : Member) : String := m.config.name

/-- The worker before its first run. -/
def worker (m : Member) : Worker := .new m.config m.settings

end Member

/-- One primary, and for each of its peers one secondary that follows it alone. -/
structure Team where
  primary : Member
  secondaries : List Member
  unique : ((primary :: secondaries).map Member.name).Nodup
  leads : primary.config.role = .primary
  peers : primary.config.peers = secondaries.map Member.name
  follows : ∀ m ∈ secondaries, m.config.role = .secondary ∧ m.config.peers = [primary.name]
  counters : ∀ m ∈ secondaries, m.config.initialCounter = primary.config.initialCounter

def Team.members (t : Team) : List Member := t.primary :: t.secondaries

inductive Activity where
  | resting (worker : Worker)
  | running (rest : Program runInterface (Except WorkerError Report × Worker)) (line : Line)

/-- A worker with the number of its completed runs. -/
structure Desk where
  runs : Nat
  activity : Activity

/-- What happened in a run of a worker; its first run has the number zero. -/
structure Record where
  worker : String
  run : Nat
  event : RunEvent

/-- The events of one run. -/
def eventsOf (log : List Record) (worker : String) (run : Nat) : List RunEvent :=
  log.filterMap fun r => if r.worker = worker ∧ r.run = run then some r.event else none

structure World where
  mailboxes : Mailboxes
  desks : String → Desk
  log : List Record

namespace World

/-- Before the first run of anyone. -/
def initial (t : Team) : World where
  mailboxes := .empty
  desks := fun name => ⟨0, .resting ((t.members.find? (·.name == name)).getD t.primary).worker⟩
  log := []

/-- The world after a worker has moved, with the events of its current run. -/
def move (w : World) (name : String) (desk : Desk) (mailboxes : Mailboxes) (events : List RunEvent) :
    World where
  mailboxes := mailboxes
  desks := fun other => if other = name then desk else w.desks other
  log := w.log ++ events.map fun event => ⟨name, (w.desks name).runs, event⟩

section
variable {w : World} {name other : String} {desk : Desk} {mailboxes : Mailboxes} {events : List RunEvent}

@[simp] theorem move_own : (w.move name desk mailboxes events).desks name = desk := if_pos rfl

theorem move_other (different : other ≠ name) :
    (w.move name desk mailboxes events).desks other = w.desks other := if_neg different

end

inductive Step (t : Team) (w : World) : World → Prop where
  /-- A run begins with a stream of the worker, as long as its counters are within their range. -/
  | begin {m : Member} {worker : Worker} {s : Stream} (polls : Nat) (member : m ∈ t.members)
      (resting : (w.desks m.name).activity = .resting worker) (stream : s.name = m.name)
      (room : worker.counter.toNat + 3 < 2 ^ 32) :
      Step t w (w.move m.name ⟨(w.desks m.name).runs,
        .running ((Worker.run polls s).program worker) .ready⟩ w.mailboxes [.begun s])
  /-- A call is answered. -/
  | act {m : Member} {c : RunCall} {line : Line} {mailboxes : Mailboxes} (answer : c.Answer)
      {next : c.Answer → Program runInterface (Except WorkerError Report × Worker)}
      (member : m ∈ t.members)
      (running : (w.desks m.name).activity = .running (.call c next) line)
      (answers : w.mailboxes.Answers c answer mailboxes) :
      Step t w (w.move m.name ⟨(w.desks m.name).runs, .running (next answer) (line.hear c answer).1⟩
        mailboxes (line.hear c answer).2)
  /-- A worker that waits in vain throws stale messages away. -/
  | linger {m : Member} {owner : String} {a : Awaited} {timeout : Nat} {line : Line}
      {next : (RunCall.wait owner a timeout).Answer → Program runInterface (Except WorkerError Report × Worker)}
      {mailboxes : Mailboxes} (member : m ∈ t.members)
      (running : (w.desks m.name).activity = .running (.call (.wait owner a timeout) next) line)
      (vain : w.mailboxes.take owner a = (none, mailboxes)) :
      Step t w { w with mailboxes }
  | finish {m : Member} {result : Except WorkerError Report} {worker : Worker} {line : Line}
      (member : m ∈ t.members)
      (running : (w.desks m.name).activity = .running (.done (result, worker)) line) :
      Step t w (w.move m.name ⟨(w.desks m.name).runs + 1, .resting worker⟩ w.mailboxes
        [.returned result])

inductive Reachable (t : Team) : World → Prop where
  | initial : Reachable t (initial t)
  | step {w w' : World} (reachable : Reachable t w) (step : w.Step t w') : Reachable t w'

/-- A crew that goes on with a run does what the team may do. -/
theorem advance_reachable {t : Team} {m : Member} {w : World} {due : Option Nat} {n : Network}
    {p p' : Premises} {moved : Bool} {seat : Seat (Except WorkerError Report × Worker)}
    {rest : Program runInterface (Except WorkerError Report × Worker)} {line : Line}
    (reachable : Reachable t w) (member : m ∈ t.members)
    (running : (w.desks m.name).activity = .running rest line) (shared : w.mailboxes = p.mailboxes)
    (advanced : Crew.advance rest due n p = (seat, p', moved)) :
    ∃ w' line', Reachable t w' ∧ w'.mailboxes = p'.mailboxes ∧
      (w'.desks m.name).activity = .running seat.program line' ∧
      ∀ other, other ≠ m.name → w'.desks other = w.desks other := by
  induction rest generalizing w due n p line moved with
  | done a =>
    cases advanced
    exact ⟨w, line, reachable, shared, running, fun _ _ => rfl⟩
  | call c next ih =>
    unfold Crew.advance at advanced
    dsimp only at advanced
    split at advanced
    · rename_i answer n₁ p₁ answered
      cases later : Crew.advance (next answer) none n₁ p₁ with
      | mk seat' more =>
        obtain ⟨p₂, moved'⟩ := more
        rw [later] at advanced
        cases advanced
        have answers := Crew.answer_answers answered
        rw [← shared] at answers
        obtain ⟨w', line', reachable', mailboxes, running', others⟩ :=
          ih answer (reachable.step (.act answer member running answers))
            (congrArg Desk.activity move_own) rfl later
        exact ⟨w', line', reachable', mailboxes, running', fun other different =>
          (others other different).trans (move_other different)⟩
    · rename_i n₁ p₁ waits
      cases advanced
      rcases Crew.answer_none waits with same | ⟨owner, a, timeout, rfl, vain⟩
      · exact ⟨w, line, reachable, shared.trans same.symm, running, fun _ _ => rfl⟩
      · rw [← shared] at vain
        exact ⟨_, line, reachable.step (.linger member running vain), rfl, running, fun _ _ => rfl⟩

end World

end Sequencer
