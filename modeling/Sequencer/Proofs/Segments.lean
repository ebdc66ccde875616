import Sequencer.Proofs.Mail
import Sequencer.Proofs.Traces
import Sequencer.Proofs.WorkerSteps

/-!
Parts of a worker's run: which calls they make, what they ask the board for, what is left of the
worker, and what their errors are due to. Parts that follow each other make up a part.
-/
namespace Sequencer

/-- The view after the calls of a trace. -/
def View.along (v : View) (trace : Trace runInterface) : View :=
  trace.foldl (fun v move => v.hear (v.line.hear move.1 move.2)) v

@[simp] theorem View.along_nil (v : View) : v.along [] = v := rfl

@[simp] theorem View.along_append (v : View) (first second : Trace runInterface) :
    v.along (first ++ second) = (v.along first).along second := List.foldl_append

/-- The events of a run. -/
def heard (trace : Trace runInterface) : List RunEvent := (View.along {} trace).events

namespace RunCall

/-- Calls that concern nobody but the board and the clock. -/
def isLocal : RunCall → Bool
  | link _ | connect | now | pause _ => true
  | _ => false

/-- Calls of which no other worker hears. -/
def isSilent : RunCall → Bool
  | post _ _ | abortAll => false
  | _ => true

theorem isSilent_of_isLocal {c : RunCall} (isLocal : c.isLocal) : c.isSilent := by
  cases c <;> simp_all [RunCall.isLocal, isSilent]

end RunCall

/-- A message that was taken says that its sender failed. -/
def reportsFailure (answer : Except BarrierError Message) : Bool :=
  match answer with
  | .error (.peerFailed _ _) => true
  | _ => false

/-- An answer that tells of a failure elsewhere. -/
def RunCall.isAlarming : (c : RunCall) → c.Answer → Bool
  | isAborted, aborted => aborted
  | wait _ _ _, answer => reportsFailure answer
  | poll _ _, answer => Option.any reportsFailure answer
  | _, _ => false

def Move.isAlarm (move : Move runInterface) : Bool := move.1.isAlarming move.2

theorem Move.not_isAlarm_of_isLocal {move : Move runInterface} (isLocal : move.1.isLocal) :
    move.isAlarm = false := by
  obtain ⟨c, answer⟩ := move
  cases c with
  | link _ | connect | now | pause _ => rfl
  | _ => cases isLocal

/-- A part without an error has heard of no failure, and an error that is due to another failure comes
from one that was heard of. -/
def Blameless (trace : Trace runInterface) : Option WorkerError → Prop
  | none => ∀ move ∈ trace, move.isAlarm = false
  | some e => (∃ move ∈ trace, move.isAlarm) ∨ e.distance = 0

def failure? {α : Type} : Except WorkerError α → Option WorkerError
  | .ok _ => none
  | .error e => some e

/-- Of two errors the first counts. -/
theorem Blameless.append {first second : Trace runInterface} {failure failure' : Option WorkerError}
    (before : Blameless first failure) (after : Blameless second failure') :
    Blameless (first ++ second) (failure.or failure') := by
  cases failure with
  | some e => exact before.imp_left fun ⟨move, member, alarm⟩ => ⟨move, List.mem_append_left _ member, alarm⟩
  | none =>
    cases failure' with
    | some e => exact after.imp_left fun ⟨move, member, alarm⟩ => ⟨move, List.mem_append_right _ member, alarm⟩
    | none => exact fun move member => (List.mem_append.mp member).elim (before move) (after move)

theorem Blameless.of_local {trace : Trace runInterface} {failure : Option WorkerError}
    (calls : ∀ move ∈ trace, move.1.isLocal) (own : ∀ e, failure = some e → e.distance = 0) :
    Blameless trace failure := by
  cases failure with
  | none => exact fun move member => Move.not_isAlarm_of_isLocal (calls move member)
  | some e => exact .inr (own e rfl)

/-- All requests have one of the commands. -/
def RunEvent.isWithin (commands : List Command) : RunEvent → Bool
  | requested request => request.command ∈ commands
  | _ => true

/-- Without new requests nothing is lost. -/
theorem Client.InTouch.mono {c : Client} {past new : List RunEvent} (touch : c.InTouch past)
    (unrequested : ∀ request, .requested request ∉ new) : c.InTouch (past ++ new) := by
  intro steady ⟨request, asked⟩
  refine touch steady.left_of_append ⟨request, ?_⟩
  exact (List.mem_append.mp asked).resolve_right (unrequested request)

theorem Client.InTouch.of_client {c c' : Client} {events : List RunEvent} (touch : c.InTouch events)
    (connection : c'.connection = c.connection) (state : c'.state = c.state) : c'.InTouch events := by
  intro steady asked
  have linked := touch steady asked
  exact ⟨connection ▸ linked.connected, state ▸ linked.inUse⟩

/-- Anything but a request with this command. -/
def RunEvent.spares (command : Command) : RunEvent → Bool
  | requested request => request.command ≠ command
  | _ => true

/-- No request has this command. -/
def Unasked (command : Command) (events : List RunEvent) : Prop := ∀ x ∈ events, x.spares command

namespace Unasked
variable {command : Command} {first second events : List RunEvent}

theorem append (before : Unasked command first) (after : Unasked command second) :
    Unasked command (first ++ second) := fun x member =>
  (List.mem_append.mp member).elim (before x) (after x)

theorem fresh (unasked : Unasked command events) {request : Frame} (same : request.command = command) :
    .requested request ∉ events := fun member => by simpa [RunEvent.spares, same] using unasked _ member

theorem answered {answer : Except LinkError Frame} (unasked : Unasked command events) :
    Unasked command (.answered answer :: events) := fun x member =>
  (List.mem_cons.mp member).elim (fun same => same ▸ rfl) (unasked x)

theorem grows {v v' : View} (unasked : Unasked command v.events)
    (grows : v.Grows (RunEvent.spares command) v') : Unasked command v'.events := by
  obtain ⟨_, new, events, each⟩ := grows
  rw [events]
  exact unasked.append each

end Unasked

/-- Calls of which events of one kind are heard. -/
def Adds (kind : RunEvent → Bool) (trace : Trace runInterface) : Prop :=
  ∀ v : View, v.line = .ready → v.Grows kind (v.along trace)

theorem Adds.append {kind : RunEvent → Bool} {first second : Trace runInterface} (before : Adds kind first)
    (after : Adds kind second) : Adds kind (first ++ second) := by
  intro v ready
  rw [View.along_append]
  exact (before v ready).trans (after _ (before v ready).1)

/-- Calls of which no request with this command is heard. -/
abbrev Spared (command : Command) : Trace runInterface → Prop := Adds (RunEvent.spares command)

/-- What a part of a run has done to its worker and its board. -/
structure Segment (calls : RunCall → Bool) (commands : List Command) (w : Worker)
    (trace : Trace runInterface) (failure : Option WorkerError) (w' : Worker) : Prop where
  fixed : w'.fixed = w.fixed
  settings : w'.settings = w.settings
  calls : ∀ move ∈ trace, calls move.1
  grows : ∀ v : View, v.line = .ready → v.Grows (RunEvent.isWithin commands) (v.along trace)
  touch : .close ∉ commands → ∀ v : View, v.line = .ready → w.client.InTouch v.events →
    w'.client.InTouch (v.along trace).events
  blameless : Blameless trace failure

/-- A part of a run that makes these calls and asks the board with these commands only. -/
def Part {α : Type} (calls : RunCall → Bool) (commands : List Command) (p : RunM α) : Prop :=
  ∀ w trace r w', Task.Runs p w trace r w' → Segment calls commands w trace (failure? r) w'

section
variable {calls calls' : RunCall → Bool} {commands commands' : List Command} {w w' w'' : Worker}
  {trace first second : Trace runInterface} {failure failure' : Option WorkerError}

theorem RunEvent.isWithin_mono (more : commands ⊆ commands') {x : RunEvent} (within : x.isWithin commands) :
    x.isWithin commands' := by
  cases x with
  | requested request => simpa [isWithin] using @more request.command (by simpa [isWithin] using within)
  | _ => rfl

namespace Segment

theorem nothing (own : ∀ e, failure = some e → e.distance = 0) : Segment calls commands w [] failure w :=
  ⟨rfl, rfl, by simp, fun _ ready => .refl ready, fun _ _ _ => id, .of_local (by simp) own⟩

theorem append (before : Segment calls commands w first failure w')
    (after : Segment calls commands w' second failure' w'') :
    Segment calls commands w (first ++ second) (failure.or failure') w'' where
  fixed := after.fixed.trans before.fixed
  settings := after.settings.trans before.settings
  calls move member := (List.mem_append.mp member).elim (before.calls move) (after.calls move)
  grows v ready := by
    have grown := before.grows v ready
    rw [View.along_append]
    exact grown.trans (after.grows _ grown.1)
  touch stays v ready touch := by
    rw [View.along_append]
    exact after.touch stays _ (before.grows v ready).1 (before.touch stays v ready touch)
  blameless := before.blameless.append after.blameless

/-- The worker before may differ in what no part depends on. -/
theorem of_start (segment : Segment calls commands w' trace failure w'') (fixed : w'.fixed = w.fixed)
    (settings : w'.settings = w.settings) (connection : w'.client.connection = w.client.connection)
    (state : w'.client.state = w.client.state) : Segment calls commands w trace failure w'' :=
  ⟨segment.fixed.trans fixed, segment.settings.trans settings, segment.calls, segment.grows,
    fun stays v ready touch => segment.touch stays v ready (touch.of_client connection state),
    segment.blameless⟩

theorem weaken (segment : Segment calls commands w trace failure w')
    (moreCalls : ∀ c, calls c → calls' c) (more : commands ⊆ commands') :
    Segment calls' commands' w trace failure w' :=
  ⟨segment.fixed, segment.settings, fun move member => moreCalls _ (segment.calls move member),
    fun v ready => (segment.grows v ready).weaken fun _ => RunEvent.isWithin_mono more,
    fun stays => segment.touch fun listed => stays (more listed), segment.blameless⟩

/-- An error of a local part is one's own. -/
theorem own {e : WorkerError} (segment : Segment RunCall.isLocal commands w trace (some e) w') :
    e.distance = 0 := by
  rcases segment.blameless with ⟨move, member, alarm⟩ | own
  · rw [Move.not_isAlarm_of_isLocal (segment.calls move member)] at alarm
    cases alarm
  · exact own

theorem adds {kind : RunEvent → Bool} (segment : Segment calls commands w trace failure w')
    (weaker : ∀ x : RunEvent, x.isWithin commands → kind x) : Adds kind trace :=
  fun v ready => (segment.grows v ready).weaken weaker

theorem spared {command : Command} (segment : Segment calls commands w trace failure w')
    (other : command ∉ commands) : Spared command trace := by
  refine segment.adds fun x within => ?_
  cases x with
  | requested request =>
    have listed : request.command ∈ commands := by simpa [RunEvent.isWithin] using within
    have different : request.command ≠ command := fun same => other (same ▸ listed)
    simpa [RunEvent.spares] using different
  | _ => rfl

theorem unasked {command : Command} {v : View} (segment : Segment calls commands w trace failure w')
    (ready : v.line = .ready) (other : command ∉ commands) (before : Unasked command v.events) :
    Unasked command (v.along trace).events := before.grows (segment.spared other v ready)

end Segment

namespace Part
variable {α β : Type} {p : RunM α}

theorem pure {a : α} : Part calls commands (Pure.pure a : RunM α) := by
  intro w trace r w' runs
  obtain ⟨rfl, rfl, rfl⟩ := Task.runs_pure.mp runs
  exact .nothing fun _ absent => by cases absent

theorem throw {e : WorkerError} (own : e.distance = 0) :
    Part calls commands (MonadExceptOf.throw e : RunM α) := by
  intro w trace r w' runs
  obtain ⟨rfl, rfl, rfl⟩ := Task.runs_throw.mp runs
  refine .nothing fun e' same => ?_
  rw [← Option.some.inj same]
  exact own

theorem bind {f : α → RunM β} (before : Part calls commands p) (after : ∀ a, Part calls commands (f a)) :
    Part calls commands (p >>= f) := by
  intro w trace r w' runs
  rcases Task.runs_bind.mp runs with ⟨first, second, a, mid, rfl, ran, goesOn⟩ | ⟨e, rfl, ran⟩
  · exact (before _ _ _ _ ran).append (after a _ _ _ _ goesOn)
  · exact before _ _ _ _ ran

theorem get {f : Worker → RunM β} (next : ∀ w, Part calls commands (f w)) :
    Part calls commands (MonadState.get >>= f) := fun w trace r w' runs => next w w trace r w' runs

theorem weaken (part : Part calls commands p) (moreCalls : ∀ c, calls c → calls' c)
    (more : commands ⊆ commands') : Part calls' commands' p :=
  fun w trace r w' runs => (part w trace r w' runs).weaken moreCalls more

/-- A local part among silent ones. -/
theorem silent (part : Part RunCall.isLocal commands p) (more : commands ⊆ commands') :
    Part RunCall.isSilent commands' p := part.weaken (fun _ => RunCall.isSilent_of_isLocal) more

theorem result {result : Except WorkerError α} {f : α → RunM β}
    (own : ∀ e, result = .error e → e.distance = 0) (next : ∀ a, Part calls commands (f a)) :
    Part calls commands ((liftM result : RunM α) >>= f) := by
  cases result with
  | ok a => exact next a
  | error e => exact throw (own e rfl)

end Part
end

end Sequencer
