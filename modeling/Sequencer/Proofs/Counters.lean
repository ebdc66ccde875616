import Sequencer.Proofs.Rehearsal
import Sequencer.Proofs.RunCourse

/-!
The counters of a worker from run to run.

A run with a stream of the worker takes the next three counters, whatever becomes of it, and meets its peers under
these alone. A call with the stream of another board is turned away before it does anything, and takes none.
-/
namespace Sequencer

/-- The event and the counter under which a call meets a peer. -/
def RunCall.barrier? : RunCall → Option (String × Word)
  | post _ message => some (message.event, message.counter)
  | wait _ a _ | poll _ a => some (a.event, a.counter)
  | _ => none

def barriersOf (trace : Trace runInterface) : List (String × Word) := trace.filterMap fun move => move.1.barrier?

/-- The barriers of a run that begins at this counter. -/
def barriersFrom (base : Word) : List (String × Word) :=
  [(Event.start, base + 1), (Event.started, base + 2), (Event.stopped, base + 3)]

theorem mem_barriersFrom {base : Word} {b : String × Word} : b ∈ barriersFrom base ↔
    b = (Event.start, base + 1) ∨ b = (Event.started, base + 2) ∨ b = (Event.stopped, base + 3) := by
  simp [barriersFrom]

/-- An event comes under one counter only. -/
theorem barriersFrom_counter {base : Word} {b b' : String × Word} (member : b ∈ barriersFrom base)
    (member' : b' ∈ barriersFrom base) (event : b.1 = b'.1) : b.2 = b'.2 := by
  rcases mem_barriersFrom.mp member with rfl | rfl | rfl <;>
    rcases mem_barriersFrom.mp member' with rfl | rfl | rfl <;>
      first | rfl | simp [Event.start, Event.started, Event.stopped] at event

theorem barriersFrom_bounds {base : Word} {b : String × Word} (room : base.toNat + 3 < 2 ^ 32)
    (member : b ∈ barriersFrom base) : base.toNat < b.2.toNat ∧ b.2.toNat ≤ base.toNat + 3 := by
  rcases mem_barriersFrom.mp member with rfl | rfl | rfl <;>
    simp only [BitVec.toNat_add, BitVec.ofNat_eq_ofNat, BitVec.toNat_ofNat] <;> omega

theorem toNat_advance (base : Word) : (base + 3).toNat = (base.toNat + 3) % 2 ^ 32 := BitVec.toNat_add base 3

namespace Worker
variable {α β : Type} {base : Word} {w w' : Worker} {p : RunM α}

/-- All meetings are under the counters of one run. -/
def numbering (base : Word) : Watch runInterface Unit where
  see _ _ _ := ()
  possible _ _ := True
  lawful _ c _ := ∀ b, c.barrier? = some b → b ∈ barriersFrom base

/-- A part of a run that begins at this counter. -/
def Numbered (base : Word) (p : RunM α) : Prop :=
  ∀ w, Task.wp (numbering base) p (fun _ w' _ => w'.fixed = w.fixed) w ()

namespace Numbered
variable {f : α → RunM β}

theorem spec (part : Numbered base p) : Task.wp (numbering base) p (fun _ w' _ => w'.fixed = w.fixed) w () := part w

theorem pure {a : α} : Numbered base (Pure.pure a : RunM α) := fun _ => rfl

theorem throw {e : WorkerError} : Numbered base (MonadExceptOf.throw e : RunM α) := fun _ => rfl

theorem bind (first : Numbered base p) (next : ∀ a, Numbered base (f a)) : Numbered base (p >>= f) := fun w =>
  Task.seq (first w) (fun a w' _ same => Task.mono (next a w') fun _ _ _ same' => same'.trans same)
    fun _ _ _ same => same

theorem get {f : Worker → RunM β} (next : ∀ w, Numbered base (f w)) : Numbered base (MonadState.get >>= f) :=
  fun w => next w w

theorem ask {c : RunCall} (numbered : ∀ b, c.barrier? = some b → b ∈ barriersFrom base) :
    Numbered base (Worker.ask c) := fun _ _ _ => ⟨numbered, rfl⟩

theorem unmet {c : RunCall} (alone : c.barrier? = none) : Numbered base (Worker.ask c) :=
  ask fun _ meets => absurd (alone.symm.trans meets) nofun

theorem fail {fault : RunFault} : Numbered base (Worker.fail fault : RunM α) := .get fun _ => .throw

theorem attempt (part : Numbered base p) : Numbered base (Worker.attempt p) := fun w =>
  Program.wp_bind.mpr (Program.wp_mono (fun _ _ same => same) (part w))

theorem result {result : Except WorkerError α} (next : ∀ a, Numbered base (f a)) :
    Numbered base ((liftM result : RunM α) >>= f) := fun w =>
  Task.wp_result (fun a _ => next a w) fun _ _ => rfl

/-- A client meets nobody. -/
theorem onBoard {p : LinkM α} : Numbered base (Worker.onBoard p) := by
  have alone {γ : Type} {Q : γ → Unit → Prop} {q : Program linkInterface γ} (holds : ∀ a, Q a ()) :
      (Program.ofLink q).wp (numbering base) Q () := by
    induction q with
    | done a => exact holds a
    | call c next ih => exact fun answer _ => ⟨nofun, ih answer⟩
  intro w
  refine Task.wp_get (Task.wp_lift (alone fun out => Task.wp_set ?_))
  obtain ⟨result, client⟩ := out
  cases result <;> rfl

end Numbered

section
variable {peers : List String} {event : String} {counter : Word} {ok warn : Bool}

theorem post_numbered (peer : String) (member : (event, counter) ∈ barriersFrom base) :
    Numbered base (post peer event counter ok warn) := by
  refine .get fun w => .bind (.ask fun _ same => Option.some.inj same ▸ member) fun answer => ?_
  split
  · exact .pure
  · exact .throw

theorem forM_numbered {p : String → RunM Unit} (each : ∀ peer, Numbered base (p peer)) :
    Numbered base (peers.forM p) := by
  induction peers with
  | nil => exact .pure
  | cons peer rest ih => exact .bind (each peer) fun _ => ih

theorem ignoringErrors_numbered {p : RunM Unit} (numbered : Numbered base p) : Numbered base (ignoringErrors p) :=
  .bind (.attempt numbered) fun _ => .pure

theorem wait_numbered (peer : String) (member : (event, counter) ∈ barriersFrom base) :
    Numbered base (wait peer event counter) := by
  refine .get fun w => .bind (.ask fun _ same => Option.some.inj same ▸ member) fun answer => ?_
  split
  · exact .pure
  · exact .throw

theorem pause_numbered : Numbered base pause := .get fun _ => .unmet rfl

theorem connectAndReset_numbered : Numbered base connectAndReset := by
  unfold connectAndReset
  refine .get fun w => ?_
  dsimp only
  split
  · refine .bind (.unmet rfl) fun answer => ?_
    split
    · exact .throw
    · exact .bind .onBoard fun _ => .bind .onBoard fun _ => .onBoard
  · exact .onBoard

theorem awaitLock_numbered (polls : Nat) : Numbered base (awaitLock polls) := by
  induction polls with
  | zero => exact .fail
  | succ polls ih =>
    unfold awaitLock
    refine .bind .onBoard fun status => ?_
    split
    · exact .pure
    · exact .bind pause_numbered fun _ => ih

theorem lockClock_numbered : Numbered base lockClock :=
  .bind .onBoard fun _ => .bind .onBoard fun _ => awaitLock_numbered lockPolls

theorem upload_numbered (s : Stream) : Numbered base (upload s) := by
  refine .result fun config w => ?_
  have asking : Numbered base (onBoard (Client.configure config) >>= fun applied => do
      onBoard (Client.write s.bytes)
      return applied) := .bind .onBoard fun _ => .bind .onBoard fun _ => .pure
  exact asking { w with client := { w.client with policy := s.errorPolicy } }

theorem collectStopped_numbered (taken : List Message) (member : (Event.stopped, counter) ∈ barriersFrom base) :
    Numbered base (collectStopped peers counter taken) := by
  induction peers generalizing taken with
  | nil => exact .pure
  | cons peer rest ih =>
    refine .bind ?_ ih
    dsimp only
    split
    · exact .pure
    · refine .get fun w => .bind (.ask fun _ same => Option.some.inj same ▸ member) fun answer => ?_
      split
      · exact .pure
      · exact .pure
      · exact .throw

theorem checkAborted_numbered : Numbered base checkAborted := by
  refine .bind (.unmet rfl) fun aborted => ?_
  split
  · exact .fail
  · exact .pure

theorem checkLimit_numbered (begun : Nat) (limit : Option Nat) : Numbered base (checkLimit begun limit) := by
  unfold checkLimit
  split
  · refine .bind (.unmet rfl) fun now => ?_
    split
    · exact .fail
    · exact .pure
  · exact .pure

theorem awaitEnd_numbered (begun : Nat) (limit : Option Nat) (polls : Nat) (clockLost : Bool) (taken : List Message)
    (member : (Event.stopped, counter) ∈ barriersFrom base) :
    Numbered base (awaitEnd begun limit peers counter polls clockLost taken) := by
  induction polls generalizing clockLost taken with
  | zero => exact .bind (.unmet rfl) fun (answer : Empty) => answer.elim
  | succ polls ih =>
    unfold awaitEnd
    refine .bind checkAborted_numbered fun _ => .bind (collectStopped_numbered taken member) fun taken => ?_
    refine .bind (checkLimit_numbered begun limit) fun _ => .bind .onBoard fun status => .get fun w => ?_
    dsimp only
    split
    · exact .pure
    · exact .fail
    · exact .bind pause_numbered fun _ => ih _ _

theorem waitForEnd_numbered (polls : Nat) (limit : Option Nat)
    (member : (Event.stopped, counter) ∈ barriersFrom base) : Numbered base (waitForEnd polls limit peers counter) :=
  .bind (.unmet rfl) fun _ => awaitEnd_numbered _ _ _ _ _ member

theorem verified_numbered (s : Stream) (applied : ConfigFrame) (status : StatusFrame) :
    Numbered base (verified s applied status) := by
  unfold verified
  split
  · exact .pure
  · exact .fail

theorem gatherStopped_numbered (taken : List Message) (member : (Event.stopped, counter) ∈ barriersFrom base) :
    Numbered base (gatherStopped peers counter taken) := by
  have gathering (missing : List String) (state : List String × Option WorkerError) :
      Numbered base (missing.foldlM (gatherNext counter) state) := by
    induction missing generalizing state with
    | nil => exact .pure
    | cons peer rest ih =>
      refine .bind (.bind (.attempt (wait_numbered peer member)) fun outcome => ?_) ih
      split
      · exact .pure
      · exact .pure
  exact gathering _ _

end

theorem start_mem : (Event.start, base + 1) ∈ barriersFrom base := mem_barriersFrom.mpr (.inl rfl)
theorem started_mem : (Event.started, base + 2) ∈ barriersFrom base := mem_barriersFrom.mpr (.inr (.inl rfl))
theorem stopped_mem : (Event.stopped, base + 3) ∈ barriersFrom base := mem_barriersFrom.mpr (.inr (.inr rfl))

theorem conclude_numbered (s : Stream) (peers : List String) (applied : ConfigFrame) (ending : Ending) :
    Numbered base (conclude s base peers applied ending) := by
  refine .bind (gatherStopped_numbered _ stopped_mem) fun gathered => .bind (.attempt .onBoard) fun stopped => ?_
  dsimp only
  split
  · exact .throw
  · exact .result fun _ => .bind (verified_numbered s applied ending.status) fun _ => .get fun _ => .pure

theorem lead_numbered (polls : Nat) (s : Stream) (peers : List String) (applied : ConfigFrame) :
    Numbered base (lead polls s base peers applied) := by
  have waiting (peer : String) : Numbered base (do let _ ← wait peer Event.started (base + 2)) :=
    .bind (wait_numbered peer started_mem) fun _ => .pure
  refine .bind (forM_numbered waiting) fun _ => .bind .onBoard fun _ => .get fun _ => ?_
  exact .bind (waitForEnd_numbered _ _ stopped_mem) fun ending => conclude_numbered s peers applied ending

theorem runPrimary_numbered (polls : Nat) (s : Stream) : Numbered base (runPrimary polls s base) := by
  rw [runPrimary_eq]
  refine .get fun w => .bind (.attempt (.bind connectAndReset_numbered fun _ => upload_numbered s)) fun prepared => ?_
  refine .bind (forM_numbered fun peer => post_numbered peer start_mem) fun _ => ?_
  exact .result fun applied => lead_numbered polls s _ applied

theorem joinStart_numbered (primary : String) (s : Stream) : Numbered base (joinStart primary s (base + 1)) :=
  .bind (wait_numbered primary start_mem) fun _ => .bind connectAndReset_numbered fun _ =>
    .bind lockClock_numbered fun _ => .bind (upload_numbered s) fun _ => .bind .onBoard fun _ => .pure

theorem awaitComplete_numbered (polls : Nat) (primary : String) (s : Stream) (applied : ConfigFrame) :
    Numbered base (awaitComplete polls primary s base applied) :=
  .get fun _ => .bind (waitForEnd_numbered _ _ stopped_mem) fun _ =>
    .bind (verified_numbered s applied _) fun _ => .get fun _ => .pure

theorem runSecondary_numbered (polls : Nat) (s : Stream) : Numbered base (runSecondary polls s base) := by
  rw [runSecondary_eq]
  refine .get fun w => ?_
  split
  · exact .throw
  · rename_i primary _ _
    refine .bind (.attempt (joinStart_numbered primary s)) fun started => ?_
    refine .bind (post_numbered primary started_mem) fun _ => .result fun applied => ?_
    refine .bind (.attempt (awaitComplete_numbered polls primary s applied)) fun result => ?_
    refine .bind (.attempt (.bind .onBoard fun _ => .onBoard)) fun unlocked => ?_
    refine .bind (post_numbered primary stopped_mem) fun _ => .result fun _ => ?_
    cases result with
    | ok report => exact .pure
    | error e => exact .throw

theorem abortBoard_numbered : Numbered base abortBoard := by
  unfold abortBoard
  refine .get fun w => ?_
  split
  · exact .pure
  split
  · exact .onBoard
  · refine .bind (ignoringErrors_numbered .onBoard) fun _ => ?_
    exact ignoringErrors_numbered (.bind .onBoard fun _ => .bind .onBoard fun _ => .pure)

theorem releaseSecondaries_numbered : Numbered base (releaseSecondaries base) :=
  .get fun _ => forM_numbered fun peer => ignoringErrors_numbered (post_numbered peer stopped_mem)

theorem assigned_numbered (polls : Nat) (s : Stream) (role : Role) : Numbered base (assigned polls s base role) := by
  cases role with
  | primary => exact runPrimary_numbered polls s
  | secondary => exact runSecondary_numbered polls s

/-- Whatever happens, a run takes three counters and meets its peers under these. -/
theorem run_numbered (polls : Nat) {s : Stream} (own : s.name = w.name) :
    Task.wp (numbering w.counter) (run polls s) (fun _ w' _ => w'.fixed = (w.config, w.counter + 3)) w () := by
  have closing (e : WorkerError) : Numbered w.counter (abortBoard >>= fun _ => throw e : RunM Report) :=
    .bind abortBoard_numbered fun _ => .throw
  unfold run
  refine Task.wp_get ?_
  dsimp only
  rw [if_neg (not_not_intro own)]
  refine Task.wp_set (Numbered.spec (w := { w with counter := w.counter + 3 }) ?_)
  refine .bind (.unmet rfl) fun _ => .bind (.attempt (assigned_numbered polls s w.config.role)) fun result => ?_
  cases result with
  | ok report =>
    dsimp only
    split
    · exact fun _ => rfl
    · exact .pure
  | error e =>
    dsimp only
    split
    · exact .bind releaseSecondaries_numbered fun _ => closing e
    · exact closing e

/-- As far as a call has come, it has met its peers under the next three counters only, and nobody if its stream is
one of another board. -/
theorem run_barriers {polls : Nat} {s : Stream} {trace : Trace runInterface}
    {rest : Program runInterface (Except WorkerError Report × Worker)}
    (follows : ((run polls s).program w).Follows trace rest) :
    (s.name ≠ w.name → trace = []) ∧ ∀ b ∈ barriersOf trace, b ∈ barriersFrom w.counter := by
  by_cases own : s.name = w.name
  · refine ⟨fun foreign => absurd own foreign, fun b member => ?_⟩
    obtain ⟨move, moved, meets⟩ := List.mem_filterMap.mp member
    obtain ⟨_, lawful⟩ := Program.wp_lawful (run_numbered polls own) (fun _ _ => trivial) follows move moved
    exact lawful b meets
  · rw [run_foreign own] at follows
    cases follows
    exact ⟨fun _ => rfl, by simp [barriersOf]⟩

theorem run_counter {polls : Nat} {s : Stream} {trace : Trace runInterface} {r : Except WorkerError Report}
    (runs : Task.Runs (run polls s) w trace r w') :
    w'.config = w.config ∧ w'.counter = if s.name = w.name then w.counter + 3 else w.counter := by
  by_cases own : s.name = w.name
  · have after := Program.wp_runs (run_numbered polls own) (fun _ _ => trivial) runs
    rw [if_pos own]
    exact Prod.mk.inj after
  · obtain ⟨_, _, rfl⟩ := runs_foreign own runs
    exact ⟨rfl, (if_neg own).symm⟩

/-! ### From run to run -/

/-- A call of `run` that has returned. -/
structure Job where
  stream : Stream
  trace : Trace runInterface
  result : Except WorkerError Report

/-- Calls with streams of this board. -/
def ownJobs (name : String) (jobs : List Job) : Nat := jobs.countP fun job => job.stream.name = name

/-- A worker does these jobs, one after the other. -/
inductive Works : Worker → List Job → Worker → Prop where
  | idle (w : Worker) : Works w [] w
  | job {w mid w' : Worker} {polls : Nat} {job : Job} {later : List Job}
      (ran : Task.Runs (run polls job.stream) w job.trace job.result mid) (works : Works mid later w') :
      Works w (job :: later) w'

section
variable {name : String} {job : Job} {later jobs : List Job}

theorem ownJobs_own (own : job.stream.name = name) : ownJobs name (job :: later) = ownJobs name later + 1 := by
  rw [ownJobs, List.countP_cons, if_pos (decide_eq_true own), ← ownJobs]

theorem ownJobs_foreign (foreign : job.stream.name ≠ name) : ownJobs name (job :: later) = ownJobs name later := by
  rw [ownJobs, List.countP_cons, if_neg (by simpa using foreign), Nat.add_zero, ← ownJobs]

theorem Works.config (works : Works w jobs w') : w'.config = w.config := by
  induction works with
  | idle => rfl
  | job ran _ ih => exact ih.trans (run_counter ran).1

theorem Works.counter (works : Works w jobs w') :
    w'.counter.toNat = (w.counter.toNat + 3 * ownJobs w.name jobs) % 2 ^ 32 := by
  induction works with
  | idle w => exact (Nat.mod_eq_of_lt w.counter.isLt).symm
  | @job w mid w' polls job later ran works ih =>
    obtain ⟨config, counter⟩ := run_counter ran
    rw [show mid.name = w.name from congrArg BoardConfig.name config, counter] at ih
    rw [ih]
    by_cases own : job.stream.name = w.name
    · rw [if_pos own, ownJobs_own own, toNat_advance]
      omega
    · rw [if_neg own, ownJobs_foreign own]

/-- Without an overflow no counter of a job is above the one that the worker comes to. -/
theorem Works.barriers_le (works : Works w jobs w') (room : w.counter.toNat + 3 * ownJobs w.name jobs < 2 ^ 32) :
    ∀ job ∈ jobs, ∀ b ∈ barriersOf job.trace, b.2.toNat ≤ w'.counter.toNat := by
  induction works with
  | idle => simp
  | @job w mid w' polls job later ran works ih =>
    obtain ⟨config, counter⟩ := run_counter ran
    have reached := works.counter
    rw [show mid.name = w.name from congrArg BoardConfig.name config] at ih reached
    obtain ⟨silent, numbered⟩ := run_barriers ran
    intro other member b met
    by_cases own : job.stream.name = w.name
    · rw [ownJobs_own own] at room
      have next : mid.counter.toNat = w.counter.toNat + 3 := by
        rw [counter, if_pos own, toNat_advance]
        omega
      rcases List.mem_cons.mp member with rfl | member
      · have bounds := barriersFrom_bounds (by omega) (numbered b met)
        omega
      · exact ih (by omega) other member b met
    · rw [ownJobs_foreign own] at room
      rw [if_neg own] at counter
      rcases List.mem_cons.mp member with rfl | member
      · rw [silent own] at met
        cases met
      · exact ih (by rw [counter]; exact room) other member b met

end

theorem ownJobs_le (name : String) (jobs : List Job) : ownJobs name jobs ≤ jobs.length := List.countP_le_length

theorem ownJobs_eq_length_iff {name : String} {jobs : List Job} :
    ownJobs name jobs = jobs.length ↔ ∀ job ∈ jobs, job.stream.name = name :=
  List.countP_eq_length.trans (forall₂_congr fun _ _ => decide_eq_true_iff)

/-- A remainder makes up for no call that took nothing. -/
theorem wrapped_eq_iff {initial own all m : Nat} (most : own ≤ all) (positive : 0 < m) :
    (initial + 3 * own) % m = initial + 3 * all ↔ own = all ∧ initial + 3 * all < m := by
  constructor
  · intro same
    have below := Nat.mod_le (initial + 3 * own) m
    have bound := Nat.mod_lt (initial + 3 * own) positive
    rw [same] at below bound
    exact ⟨by omega, bound⟩
  · rintro ⟨rfl, room⟩
    exact Nat.mod_eq_of_lt room

/-- A worker's counter grows by three with every call for its own board, modulo `2 ^ 32`, whatever becomes of the
call, and stays as it is in a call with the stream of another board, which asks for nothing. So it has grown by three
for each call exactly if no stream was one of another board and there was no overflow. In a call a worker meets its
peers under the next three counters only; until an overflow these are above all counters of earlier calls. Two workers
that began with the same counter and have had as many calls for their own boards meet under the same counters: what
the one waits for, the other one posts. -/
theorem counters_in_step {config : BoardConfig} {settings : WorkerSettings} {jobs : List Job}
    (works : Works (new config settings) jobs w) :
    w.counter.toNat = (config.initialCounter.toNat + 3 * ownJobs config.name jobs) % 2 ^ 32 ∧
    (w.counter.toNat = config.initialCounter.toNat + 3 * jobs.length ↔
      (∀ job ∈ jobs, job.stream.name = config.name) ∧ config.initialCounter.toNat + 3 * jobs.length < 2 ^ 32) ∧
    (∀ polls s trace rest, ((run polls s).program w).Follows trace rest →
      (s.name ≠ config.name → trace = []) ∧
      (∀ b ∈ barriersOf trace, b ∈ barriersFrom w.counter) ∧
      (config.initialCounter.toNat + 3 * (ownJobs config.name jobs + 1) < 2 ^ 32 →
        ∀ b ∈ barriersOf trace, ∀ job ∈ jobs, ∀ b' ∈ barriersOf job.trace, b'.2.toNat < b.2.toNat)) ∧
    ∀ config' settings' jobs' w', Works (new config' settings') jobs' w' →
      config'.initialCounter = config.initialCounter → ownJobs config'.name jobs' = ownJobs config.name jobs →
      ∀ polls polls' s s' trace trace' rest rest', ((run polls s).program w).Follows trace rest →
        ((run polls' s').program w').Follows trace' rest' →
        ∀ b ∈ barriersOf trace, ∀ b' ∈ barriersOf trace', b.1 = b'.1 → b.2 = b'.2 := by
  have name : w.name = config.name := congrArg BoardConfig.name works.config
  have counter : w.counter.toNat = (config.initialCounter.toNat + 3 * ownJobs config.name jobs) % 2 ^ 32 :=
    works.counter
  refine ⟨counter, ?_, fun polls s trace rest follows => ?_, ?_⟩
  · rw [counter, ← ownJobs_eq_length_iff]
    exact wrapped_eq_iff (ownJobs_le config.name jobs) (Nat.two_pow_pos 32)
  · obtain ⟨silent, numbered⟩ := run_barriers follows
    refine ⟨name ▸ silent, numbered, fun room b met job member b' met' => ?_⟩
    have bounds := barriersFrom_bounds (by omega) (numbered b met)
    have before : b'.2.toNat ≤ w.counter.toNat :=
      works.barriers_le (show config.initialCounter.toNat + 3 * ownJobs config.name jobs < _ by omega) job member b'
        met'
    omega
  · intro config' settings' jobs' w' works' initial number polls polls' s s' trace trace' rest rest' follows follows'
      b met b' met' event
    have same : w'.counter = w.counter := by
      refine BitVec.eq_of_toNat_eq (works'.counter.trans (Eq.trans ?_ counter.symm))
      show (config'.initialCounter.toNat + 3 * ownJobs config'.name jobs') % 2 ^ 32 = _
      rw [initial, number]
    have meets := (run_barriers follows').2 b' met'
    rw [same] at meets
    exact barriersFrom_counter ((run_barriers follows).2 b met) meets event

/-- Whatever the configuration, three counters for each call are not what happens: the first call has the stream of
another board. -/
theorem foreign_stream_takes_no_counter : ¬ ∃ config settings, ∀ jobs w, Works (new config settings) jobs w →
    w.counter.toNat = config.initialCounter.toNat + 3 * jobs.length := by
  rintro ⟨config, settings, claim⟩
  let s : Stream := ⟨{ config with name := config.name ++ "'" }, [], .empty, .empty, {}, .empty⟩
  have foreign : s.name ≠ (new config settings).name := fun same => by
    have lengths : (config.name ++ "'").length = config.name.length := congrArg String.length same
    rw [String.length_append] at lengths
    exact absurd lengths (Nat.succ_ne_self _)
  have ran : Task.Runs (run 0 s) (new config settings) []
      (.error (.settings (.invalid (.foreignStream config.name s.name)))) (new config settings) := by
    show ((run 0 s).program (new config settings)).Follows _ _
    rw [run_foreign foreign]
    exact .stay _
  have counter := claim [⟨s, [], _⟩] _ (.job ran (.idle _))
  exact absurd counter (by simp [new])

end Worker

namespace Team
open Worker

/-- A primary is told that its secondary has not started. -/
def unstarted : Option (Trace runInterface × Except WorkerError Report × Worker) :=
  performed (run 5 (sampleStream sample.primary)) sample.primary.worker
    [.ack, .ack, .config { cycles := 1 }, .ack, .ack, .ack, .ack]
    [("main", ⟨Event.started, "side", 2, false, false⟩)]

/-- A secondary is told that its primary has failed. -/
def untaken (w : Worker) (counter : Word) : Option (Trace runInterface × Except WorkerError Report × Worker) :=
  performed (run 5 (sampleStream side)) w [] [("side", ⟨Event.start, "main", counter, false, false⟩)]

/-- Two runs of a secondary, and the first one beside a run of its primary. -/
theorem sample_counters_in_step :
    ∃ trace first second r r' w w' w'',
      Task.Runs (run 5 (sampleStream sample.primary)) sample.primary.worker trace r w'' ∧
      Works side.worker [⟨sampleStream side, first, r'⟩] w ∧
      ((run 5 (sampleStream side)).program w).Follows second w' ∧
      barriersOf trace = [(Event.start, 1), (Event.started, 2), (Event.stopped, 3)] ∧
      barriersOf first = [(Event.start, 1), (Event.started, 2)] ∧
      barriersOf second = [(Event.start, 4), (Event.started, 5)] ∧ w.counter.toNat = 3 ∧
      (∀ b ∈ barriersOf second, ∀ b' ∈ barriersOf first, b'.2.toNat < b.2.toNat) ∧
      ∀ b ∈ barriersOf trace, ∀ b' ∈ barriersOf first, b.1 = b'.1 → b.2 = b'.2 := by
  have primary : (unstarted.map fun out => barriersOf out.1) =
      some [(Event.start, 1), (Event.started, 2), (Event.stopped, 3)] := by decide +kernel
  have secondary : ((untaken side.worker 1).bind fun once => (untaken once.2.2 4).map fun again =>
      (barriersOf once.1, barriersOf again.1)) =
        some ([(Event.start, 1), (Event.started, 2)], [(Event.start, 4), (Event.started, 5)]) := by decide +kernel
  obtain ⟨⟨trace, r, w''⟩, made, met⟩ := Option.map_eq_some_iff.mp primary
  obtain ⟨⟨first, r', w⟩, once, again⟩ := Option.bind_eq_some_iff.mp secondary
  obtain ⟨⟨second, r'', w'⟩, twice, same⟩ := Option.map_eq_some_iff.mp again
  obtain ⟨met', met''⟩ := Prod.mk.inj same
  have ran := performed_runs once
  have works : Works (new side.config side.settings) [⟨sampleStream side, first, r'⟩] w := .job ran (.idle w)
  obtain ⟨counter, _, later, _⟩ := counters_in_step works
  obtain ⟨_, _, above⟩ := later 5 (sampleStream side) second _ (performed_runs twice)
  have room : side.config.initialCounter.toNat +
      3 * (ownJobs side.config.name [⟨sampleStream side, first, r'⟩] + 1) < 2 ^ 32 := by
    have count : ownJobs side.config.name [⟨sampleStream side, first, r'⟩] = 1 := ownJobs_own rfl
    rw [count]
    decide
  refine ⟨trace, first, second, r, r', w, _, w'', performed_runs made, works, performed_runs twice, met, met', met'',
    counter, fun b member => above room b member _ (List.mem_singleton_self _), ?_⟩
  obtain ⟨_, _, _, together⟩ := counters_in_step (.idle (new sample.primary.config sample.primary.settings))
  exact together side.config side.settings [] _ (.idle _) rfl rfl 5 5 (sampleStream sample.primary) (sampleStream side)
    trace first _ _ (performed_runs made) ran

end Team

end Sequencer
