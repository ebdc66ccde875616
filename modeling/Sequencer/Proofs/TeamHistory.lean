import Mathlib.Data.List.Nodup
import Sequencer.Proofs.PrimaryRun
import Sequencer.Proofs.SecondaryRun
import Sequencer.Proofs.Team

/-!
What the history of a team looks like, whatever happens: every event keeps the law of its run, and no
message is taken that was not posted before.
-/
namespace Sequencer

namespace Team
variable {t : Team} {m : Member} {n n' : Nat}

/-- The counter of everyone before the run with this number. -/
def base (t : Team) (n : Nat) : Word := t.primary.config.initialCounter + BitVec.ofNat 32 (3 * n)

/-- The counters of a run are within their range. -/
def HasRoom (t : Team) (n : Nat) : Prop := t.primary.config.initialCounter.toNat + 3 * n + 3 < 2 ^ 32

def law (t : Team) (name : String) (n : Nat) : Law :=
  if name = t.primary.name then .primary name t.primary.config.peers (t.base n)
  else .secondary name t.primary.name (t.base n)

theorem base_zero : t.base 0 = t.primary.config.initialCounter := by simp [base]

theorem base_succ : t.base n + 3 = t.base (n + 1) := by
  unfold base
  rw [Nat.mul_succ, BitVec.ofNat_add, BitVec.add_assoc]
  rfl

theorem toNat_base (room : t.primary.config.initialCounter.toNat + 3 * n < 2 ^ 32) :
    (t.base n).toNat = t.primary.config.initialCounter.toNat + 3 * n := by
  unfold base
  simp only [BitVec.toNat_add, BitVec.toNat_ofNat]
  omega

/-- Within the range the counter of a barrier tells the run. -/
theorem run_of_counter {k : Word} (room : t.HasRoom n) (room' : t.HasRoom n')
    (same : t.base n + k = t.base n' + k) : n = n' := by
  unfold HasRoom at room room'
  have equal : t.base n = t.base n' := by
    have cancelled := congrArg (· - k) same
    simpa using cancelled
  have values := congrArg BitVec.toNat equal
  rw [toNat_base (by omega), toNat_base (by omega)] at values
  omega

theorem name_ne_primary (member : m ∈ t.secondaries) : m.name ≠ t.primary.name := by
  intro same
  refine (List.nodup_cons.mp t.unique).1 ?_
  rw [← same]
  exact List.mem_map_of_mem member

theorem law_primary : t.law t.primary.name n = .primary t.primary.name t.primary.config.peers (t.base n) :=
  if_pos rfl

theorem law_secondary (member : m ∈ t.secondaries) :
    t.law m.name n = .secondary m.name t.primary.name (t.base n) :=
  if_neg (name_ne_primary member)

theorem begun_lawful {name : String} {s : Stream} {past : List RunEvent} : t.law name n past (.begun s) := by
  unfold law
  split <;> trivial

/-- Every run of every member keeps its law. -/
theorem runs_lawful {w : Worker} {s : Stream} (member : m ∈ t.members)
    (fixed : w.fixed = (m.config, t.base n)) (named : s.name = m.name) (polls : Nat) :
    Task.wp (runWatch (t.law m.name n)) (Worker.run polls s) (fun r w' v' =>
      w'.fixed = (m.config, t.base (n + 1)) ∧ t.law m.name n v'.events (.returned r)) w
      ⟨.ready, [.begun s]⟩ := by
  obtain ⟨config, counter⟩ := Prod.mk.inj fixed
  have name : w.name = m.name := congrArg (·.name) config
  have next : (w.config, w.counter + 3) = (m.config, t.base (n + 1)) := by
    rw [config, counter, base_succ]
  rcases List.mem_cons.mp member with rfl | follower
  · have unique : w.config.peers.Nodup := by
      rw [config, t.peers]
      exact (List.nodup_cons.mp t.unique).2
    have runs := Worker.primary_runs (congrArg (·.role) config |>.trans t.leads) unique
      (named.trans name.symm) polls
    rw [name, counter, config] at runs
    rw [law_primary]
    refine Task.mono runs ?_
    intro r w' v' ⟨fixed', _, lawful⟩
    exact ⟨fixed'.trans (by rw [base_succ]), lawful⟩
  · obtain ⟨role, leader⟩ := t.follows m follower
    have runs := Worker.secondary_runs ((congrArg (·.role) config).trans role)
      ((congrArg (·.peers) config).trans leader) (named.trans name.symm) polls
    rw [name, counter, config] at runs
    rw [law_secondary follower]
    refine Task.mono runs ?_
    intro r w' v' ⟨fixed', _, lawful⟩
    exact ⟨fixed'.trans (by rw [base_succ]), lawful⟩

theorem member_ext {m' : Member} (member : m ∈ t.members) (member' : m' ∈ t.members)
    (same : m.name = m'.name) : m = m' :=
  List.inj_on_of_nodup_map t.unique member member' same

end Team

section
variable {a b log : List Record} {worker other : String} {run n : Nat} {events : List RunEvent}

@[simp] theorem eventsOf_append : eventsOf (a ++ b) worker run = eventsOf a worker run ++ eventsOf b worker run :=
  List.filterMap_append

@[simp] theorem eventsOf_own : eventsOf (events.map fun event => ⟨worker, run, event⟩) worker run = events := by
  induction events with
  | nil => rfl
  | cons x rest ih =>
    simp only [eventsOf, List.map_cons, List.filterMap_cons, and_self, if_true] at ih ⊢
    rw [ih]

theorem eventsOf_foreign (foreign : ∀ r ∈ log, r.worker = worker → r.run ≠ run) :
    eventsOf log worker run = [] := by
  refine List.filterMap_eq_nil_iff.mpr fun r member => if_neg ?_
  intro ⟨same, sameRun⟩
  exact foreign r member same sameRun

theorem eventsOf_split {x : RunEvent} {front rest : List RunEvent}
    (events : eventsOf log worker run = front ++ x :: rest) : ∃ early late,
      log = early ++ ⟨worker, run, x⟩ :: late ∧ eventsOf early worker run = front ∧
        eventsOf late worker run = rest := by
  obtain ⟨early, tail, rfl, before, after⟩ := List.filterMap_eq_append_iff.mp events
  obtain ⟨skipped, r, late, rfl, nothing, found, remaining⟩ := List.filterMap_eq_cons_iff.mp after
  have same : r = ⟨worker, run, x⟩ := by
    obtain ⟨_, _, _⟩ := r
    split at found
    · rename_i own
      obtain ⟨rfl, rfl⟩ := own
      exact congrArg (Record.mk _ _) (Option.some.inj found)
    · cases found
  have silent : eventsOf skipped worker run = [] := List.filterMap_eq_nil_iff.mpr nothing
  refine ⟨early ++ skipped, late, by rw [same, List.append_assoc], ?_, remaining⟩
  rw [eventsOf_append, silent, List.append_nil]
  exact before

theorem mem_eventsOf {x : RunEvent} : x ∈ eventsOf log worker run ↔ ⟨worker, run, x⟩ ∈ log := by
  simp only [eventsOf, List.mem_filterMap]
  constructor
  · intro ⟨⟨_, _, _⟩, member, found⟩
    split at found
    · rename_i same
      obtain ⟨rfl, rfl⟩ := same
      obtain rfl := Option.some.inj found
      exact member
    · cases found
  · intro member
    exact ⟨_, member, if_pos ⟨rfl, rfl⟩⟩

end

/-- The message was posted by someone to someone. -/
def WasPosted (log : List Record) (message : Message) : Prop :=
  ∃ r ∈ log, ∃ recipient, r.event = .posted recipient message

theorem WasPosted.mono {a b : List Record} {message : Message} (posted : WasPosted a message) :
    WasPosted (a ++ b) message := by
  obtain ⟨r, member, recipient, event⟩ := posted
  exact ⟨r, List.mem_append_left _ member, recipient, event⟩

/-- What every entry of a history satisfies, by the entries before it. -/
structure Record.IsLawful (t : Team) (before : List Record) (r : Record) : Prop where
  room : t.HasRoom r.run
  /-- Nothing comes after a return. -/
  unreturned : ∀ result, .returned result ∉ eventsOf before r.worker r.run
  lawful : t.law r.worker r.run (eventsOf before r.worker r.run) r.event
  posted : ∀ message, r.event = .took message → WasPosted before message

def Lawful (t : Team) (log : List Record) : Prop :=
  ∀ before r after, log = before ++ r :: after → r.IsLawful t before

namespace Lawful
variable {t : Team} {m : Member} {log : List Record} {r : Record} {n : Nat} {events : List RunEvent}

theorem nil : Lawful t [] := by
  intro before r after impossible
  cases before <;> cases impossible

theorem snoc (lawful : Lawful t log) (last : r.IsLawful t log) : Lawful t (log ++ [r]) := by
  intro before x after split
  rcases List.eq_nil_or_concat after with rfl | ⟨front, final, rfl⟩
  · obtain ⟨rfl, same⟩ := List.append_inj' split rfl
    obtain rfl := (List.cons.inj same).1
    exact last
  · rw [List.concat_eq_append, ← List.cons_append, ← List.append_assoc] at split
    exact lawful before x front (List.append_inj' split rfl).1

/-- Several events of one run. -/
theorem extend (lawful : Lawful t log) (room : t.HasRoom n)
    (unreturned : ∀ result, .returned result ∉ eventsOf log m.name n)
    (allows : (t.law m.name n).allows (eventsOf log m.name n) events)
    (goesOn : ∀ x ∈ events, ∀ result, x ≠ .returned result)
    (posted : ∀ message, .took message ∈ events → WasPosted log message) :
    Lawful t (log ++ events.map fun event => ⟨m.name, n, event⟩) := by
  induction events generalizing log with
  | nil => simpa using lawful
  | cons x rest ih =>
    have own : eventsOf (log ++ [⟨m.name, n, x⟩]) m.name n = eventsOf log m.name n ++ [x] := by
      simp [eventsOf]
    rw [List.map_cons, List.append_cons]
    refine ih (lawful.snoc ⟨room, unreturned, allows.1, ?_⟩) ?_ ?_ ?_ ?_
    · rintro message rfl
      exact posted message List.mem_cons_self
    · intro result found
      rw [own] at found
      rcases List.mem_append.mp found with early | last
      · exact unreturned result early
      · exact goesOn x List.mem_cons_self result (List.mem_singleton.mp last).symm
    · rw [own]
      exact allows.2
    · exact fun y later => goesOn y (List.mem_cons_of_mem _ later)
    · exact fun message later => (posted message (List.mem_cons_of_mem _ later)).mono

theorem of_append {a b : List Record} (lawful : Lawful t (a ++ b)) : Lawful t a := by
  intro before r after split
  exact lawful before r (after ++ b) (by rw [split, List.append_assoc, List.cons_append])

/-- A message of a secondary that was taken was posted by this secondary, in one of its runs. -/
theorem source (lawful : Lawful t log) (member : m ∈ t.secondaries) {worker : String} {message : Message}
    (taken : ⟨worker, n, .took message⟩ ∈ log) (sender : message.sender = m.name) :
    ∃ earlier later run, log = earlier ++ ⟨m.name, run, .posted t.primary.name message⟩ :: later ∧
      t.HasRoom run ∧ Law.secondary m.name t.primary.name (t.base run) (eventsOf earlier m.name run)
        (.posted t.primary.name message) := by
  obtain ⟨past, rest, rfl⟩ := List.append_of_mem taken
  obtain ⟨r, found, recipient, event⟩ := (lawful past _ rest rfl).posted message rfl
  obtain ⟨earlier, between, rfl⟩ := List.append_of_mem found
  have posting := lawful earlier r (between ++ ⟨worker, n, .took message⟩ :: rest) (by simp)
  obtain ⟨poster, run, _⟩ := r
  obtain rfl : _ = RunEvent.posted recipient message := event
  have allowed := posting.lawful
  obtain rfl : poster = m.name := by
    rw [← sender]
    unfold Team.law at allowed
    split at allowed
    · exact Eq.symm allowed
    · exact allowed.1.symm
  rw [t.law_secondary member] at allowed
  obtain rfl : recipient = t.primary.name := allowed.2.1
  exact ⟨earlier, between ++ ⟨worker, n, .took message⟩ :: rest, run, by simp, posting.room, allowed⟩

/-- A run posts nothing after its return. -/
theorem posted_before_return (lawful : Lawful t log) {worker recipient : String} {message : Message}
    {result : Except WorkerError Report} {earlier later before after : List Record}
    (posted : log = earlier ++ ⟨worker, n, .posted recipient message⟩ :: later)
    (returned : log = before ++ ⟨worker, n, .returned result⟩ :: after) :
    .posted recipient message ∈ eventsOf before worker n := by
  rcases List.append_eq_append_iff.mp (posted.symm.trans returned) with
    ⟨between, rfl, same⟩ | ⟨between, rfl, same⟩
  · cases between with
    | nil => cases same
    | cons first rest =>
      obtain rfl := (List.cons.inj same).1
      simp [mem_eventsOf]
  · cases between with
    | nil => cases same
    | cons first rest =>
      obtain rfl := (List.cons.inj same).1
      have unreturned := (lawful _ _ _ posted).unreturned result
      simp [mem_eventsOf] at unreturned

/-- A secondary posts at most one `stopped` in a run. -/
theorem posts_stopped_once (lawful : Lawful t log) (member : m ∈ t.secondaries)
    {recipient recipient' : String} {message message' : Message} {earlier later before after : List Record}
    (posted : log = earlier ++ ⟨m.name, n, .posted recipient message⟩ :: later)
    (posted' : log = before ++ ⟨m.name, n, .posted recipient' message'⟩ :: after)
    (stopped : message.event = Event.stopped) (stopped' : message'.event = Event.stopped) :
    message' = message := by
  have law := (lawful _ _ _ posted).lawful
  have law' := (lawful _ _ _ posted').lawful
  rw [t.law_secondary member] at law law'
  rcases List.append_eq_append_iff.mp (posted.symm.trans posted') with
    ⟨between, rfl, same⟩ | ⟨between, rfl, same⟩
  · cases between with
    | nil =>
      cases same
      rfl
    | cons first rest =>
      obtain rfl := (List.cons.inj same).1
      exact absurd stopped ((law'.2.2.2 stopped').2.1 recipient message (by simp [mem_eventsOf]))
  · cases between with
    | nil =>
      cases same
      rfl
    | cons first rest =>
      obtain rfl := (List.cons.inj same).1
      exact absurd stopped' ((law.2.2.2 stopped).2.1 recipient' message' (by simp [mem_eventsOf]))

end Lawful

/-- What the rest of a member's run will do, and how its history ends so far. -/
def Desk.IsSound (t : Team) (m : Member) (log : List Record) (desk : Desk) : Prop :=
  match desk.activity with
  | .resting w =>
    (∀ r ∈ log, r.worker = m.name → r.run < desk.runs) ∧ w.fixed = (m.config, t.base desk.runs) ∧
      t.primary.config.initialCounter.toNat + 3 * desk.runs < 2 ^ 32
  | .running rest line =>
    (∀ r ∈ log, r.worker = m.name → r.run ≤ desk.runs) ∧ t.HasRoom desk.runs ∧
      (∀ result, .returned result ∉ eventsOf log m.name desk.runs) ∧
      rest.wp (runWatch (t.law m.name desk.runs)) (fun out v =>
        out.2.fixed = (m.config, t.base (desk.runs + 1)) ∧
          t.law m.name desk.runs v.events (.returned out.1)) ⟨line, eventsOf log m.name desk.runs⟩

section
variable {t : Team} {m : Member} {desk : Desk} {log : List Record} {n : Nat} {events : List RunEvent}

/-- A member does not see what others do. -/
theorem Desk.IsSound.others (sound : desk.IsSound t m log) {name : String}
    (different : name ≠ m.name) :
    desk.IsSound t m (log ++ events.map fun event => ⟨name, n, event⟩) := by
  have records (r : Record) (member : r ∈ log ++ events.map fun event => ⟨name, n, event⟩)
      (own : r.worker = m.name) : r ∈ log := by
    rcases List.mem_append.mp member with early | late
    · exact early
    · obtain ⟨event, _, rfl⟩ := List.mem_map.mp late
      exact absurd own different
  have same : eventsOf (log ++ events.map fun event => ⟨name, n, event⟩) m.name desk.runs =
      eventsOf log m.name desk.runs := by
    have foreign : eventsOf (events.map fun event => ⟨name, n, event⟩) m.name desk.runs = [] := by
      refine eventsOf_foreign fun r late own => ?_
      obtain ⟨event, _, rfl⟩ := List.mem_map.mp late
      exact absurd own different
    rw [eventsOf_append, foreign, List.append_nil]
  unfold Desk.IsSound at sound ⊢
  cases activity : desk.activity with
  | resting worker =>
    simp only [activity] at sound
    obtain ⟨earlier, fixed, range⟩ := sound
    exact ⟨fun r member own => earlier r (records r member own) own, fixed, range⟩
  | running rest line =>
    simp only [activity] at sound
    rw [← same] at sound
    obtain ⟨earlier, room, unreturned, lawful⟩ := sound
    exact ⟨fun r member own => earlier r (records r member own) own, room, unreturned, lawful⟩

end

namespace World

/-- What holds at any time. -/
structure IsSound (t : Team) (w : World) : Prop where
  lawful : Lawful t w.log
  mail : w.mailboxes.Hold (WasPosted w.log)
  desks : ∀ m ∈ t.members, (w.desks m.name).IsSound t m w.log

variable {t : Team} {m m' : Member} {w w' : World} {desk : Desk} {mailboxes : Mailboxes} {log : List Record}
  {n : Nat} {events : List RunEvent}

/-- A move is sound if it is so for its member. -/
theorem IsSound.move (sound : w.IsSound t) (member : m ∈ t.members)
    (lawful : Lawful t (w.log ++ events.map fun event => ⟨m.name, (w.desks m.name).runs, event⟩))
    (mail : mailboxes.Hold
      (WasPosted (w.log ++ events.map fun event => ⟨m.name, (w.desks m.name).runs, event⟩)))
    (own : desk.IsSound t m (w.log ++ events.map fun event => ⟨m.name, (w.desks m.name).runs, event⟩)) :
    (w.move m.name desk mailboxes events).IsSound t := by
  refine ⟨lawful, mail, fun m' member' => ?_⟩
  unfold World.move
  dsimp only
  split
  · rename_i same
    obtain rfl := t.member_ext member' member same
    exact own
  · rename_i different
    exact (sound.desks m' member').others fun same => different same.symm

theorem initial_isSound : (initial t).IsSound t := by
  refine ⟨.nil, .empty, fun m member => ?_⟩
  have counter : m.config.initialCounter = t.base 0 := by
    rw [t.base_zero]
    rcases List.mem_cons.mp member with rfl | follower
    · rfl
    · exact t.counters m follower
  have own : t.members.find? (·.name == m.name) = some m := by
    cases found : t.members.find? (·.name == m.name) with
    | none => simpa using List.find?_eq_none.mp found m member
    | some other =>
      have same : other.name = m.name := by simpa using List.find?_some found
      rw [t.member_ext (List.mem_of_find?_eq_some found) member same]
  unfold initial Desk.IsSound
  dsimp only
  rw [own]
  exact ⟨by simp, Prod.ext rfl counter, t.primary.config.initialCounter.isLt⟩

theorem begin_isSound {worker : Worker} {s : Stream} (sound : w.IsSound t) (polls : Nat)
    (member : m ∈ t.members) (resting : (w.desks m.name).activity = .resting worker)
    (stream : s.name = m.name) (room : worker.counter.toNat + 3 < 2 ^ 32) :
    (w.move m.name ⟨(w.desks m.name).runs, .running ((Worker.run polls s).program worker) .ready⟩
      w.mailboxes [.begun s]).IsSound t := by
  have desk := sound.desks m member
  unfold Desk.IsSound at desk
  rw [resting] at desk
  obtain ⟨earlier, fixed, range⟩ := desk
  have inRange : t.HasRoom (w.desks m.name).runs := by
    rw [(Prod.mk.inj fixed).2, t.toNat_base range] at room
    exact room
  have none : eventsOf w.log m.name (w.desks m.name).runs = [] :=
    eventsOf_foreign fun r found own => Nat.ne_of_lt (earlier r found own)
  have new : eventsOf (w.log ++ [⟨m.name, (w.desks m.name).runs, .begun s⟩]) m.name
      (w.desks m.name).runs = [.begun s] := by
    have own : eventsOf ([RunEvent.begun s].map fun event => ⟨m.name, (w.desks m.name).runs, event⟩)
        m.name (w.desks m.name).runs = [.begun s] := eventsOf_own
    rw [eventsOf_append, none]
    exact own
  refine sound.move member (sound.lawful.snoc ⟨inRange, ?_, t.begun_lawful, ?_⟩)
    (sound.mail.imp fun _ posted => posted.mono) ⟨fun r found own => ?_, inRange, ?_, ?_⟩
  · simp [none]
  · intro message impossible
    cases impossible
  · rcases List.mem_append.mp found with early | late
    · exact Nat.le_of_lt (earlier r early own)
    · exact Nat.le_of_eq (congrArg Record.run (List.mem_singleton.mp late))
  · intro result found
    rw [List.map_singleton, new] at found
    cases List.mem_singleton.mp found
  · rw [List.map_singleton, new]
    exact t.runs_lawful member fixed stream polls

theorem act_isSound {c : RunCall} {line : Line} {answer : c.Answer}
    {next : c.Answer → Program runInterface (Except WorkerError Report × Worker)} (sound : w.IsSound t)
    (member : m ∈ t.members) (running : (w.desks m.name).activity = .running (.call c next) line)
    (answers : w.mailboxes.Answers c answer mailboxes) :
    (w.move m.name ⟨(w.desks m.name).runs, .running (next answer) (line.hear c answer).1⟩
      mailboxes (line.hear c answer).2).IsSound t := by
  have desk := sound.desks m member
  unfold Desk.IsSound at desk
  rw [running] at desk
  obtain ⟨earlier, room, unreturned, lawful⟩ := desk
  obtain ⟨allows, rest⟩ := lawful answer answers.possible
  have goesOn : ∀ x ∈ (line.hear c answer).2, ∀ result, x ≠ .returned result := by
    rintro x heard result rfl
    rcases Line.hear_cases heard with talk | ⟨_, _, _, impossible⟩ | ⟨_, impossible⟩
    · cases talk
    · cases impossible
    · cases impossible
  refine sound.move member (sound.lawful.extend room unreturned allows goesOn
      fun _ took => answers.taken sound.mail took)
    (answers.hold (sound.mail.imp fun _ posted => posted.mono) ?_) ⟨fun r found own => ?_, room, ?_, ?_⟩
  · rintro recipient message rfl
    exact ⟨_, List.mem_append_right _ (List.mem_map_of_mem List.mem_cons_self), recipient, rfl⟩
  · rcases List.mem_append.mp found with early | late
    · exact earlier r early own
    · obtain ⟨event, _, rfl⟩ := List.mem_map.mp late
      exact Nat.le_refl _
  · intro result found
    rw [eventsOf_append, eventsOf_own] at found
    rcases List.mem_append.mp found with early | late
    · exact unreturned result early
    · exact goesOn _ late result rfl
  · rw [eventsOf_append, eventsOf_own]
    exact rest

theorem finish_isSound {result : Except WorkerError Report} {worker : Worker} {line : Line}
    (sound : w.IsSound t) (member : m ∈ t.members)
    (running : (w.desks m.name).activity = .running (.done (result, worker)) line) :
    (w.move m.name ⟨(w.desks m.name).runs + 1, .resting worker⟩ w.mailboxes
      [.returned result]).IsSound t := by
  have desk := sound.desks m member
  unfold Desk.IsSound at desk
  rw [running] at desk
  obtain ⟨earlier, room, unreturned, fixed, returns⟩ := desk
  refine sound.move member (sound.lawful.snoc ⟨room, unreturned, returns, ?_⟩)
    (sound.mail.imp fun _ posted => posted.mono) ⟨fun r found own => ?_, fixed, ?_⟩
  · intro message impossible
    cases impossible
  · rcases List.mem_append.mp found with early | late
    · exact Nat.lt_succ_of_le (earlier r early own)
    · exact Nat.lt_succ_of_le (Nat.le_of_eq (congrArg Record.run (List.mem_singleton.mp late)))
  · unfold Team.HasRoom at room
    dsimp only
    omega

theorem Step.isSound (step : w.Step t w') (sound : w.IsSound t) : w'.IsSound t := by
  cases step with
  | begin polls member resting stream room => exact begin_isSound sound polls member resting stream room
  | act answer member running answers => exact act_isSound sound member running answers
  | linger member running vain => exact ⟨sound.lawful, sound.mail.take vain, sound.desks⟩
  | finish member running => exact finish_isSound sound member running

/-- Every reachable world is sound. -/
theorem Reachable.isSound (reachable : Reachable t w) : w.IsSound t := by
  induction reachable with
  | initial => exact initial_isSound
  | step _ step ih => exact step.isSound ih

end World

end Sequencer
