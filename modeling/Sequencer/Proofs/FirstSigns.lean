import Sequencer.Proofs.RunCourse

/-!
The first sign of a failure in a worker's run: what it hears of the failure of another, or what it lets
others hear of its own. A worker that gives the first sign itself has failed for a cause of its own.
-/
namespace Sequencer

/-- Calls by which others hear of a failure. -/
def RunCall.isComplaint : RunCall → Bool
  | post _ message => !message.ok
  | abortAll => true
  | _ => false

namespace Move
variable {move : Move runInterface}

def isComplaint (move : Move runInterface) : Bool := move.1.isComplaint

def isSign (move : Move runInterface) : Bool := move.isAlarm || move.isComplaint

theorem not_isComplaint_of_isSilent (silent : move.1.isSilent) : move.isComplaint = false := by
  obtain ⟨c, answer⟩ := move
  cases c with
  | post _ _ | abortAll => cases silent
  | _ => rfl

theorem not_isComplaint_of_isAlarm (alarm : move.isAlarm) : move.isComplaint = false := by
  obtain ⟨c, answer⟩ := move
  cases c with
  | post _ _ | abortAll => cases alarm
  | _ => rfl

end Move

def firstSign (trace : Trace runInterface) : Option (Move runInterface) := trace.find? Move.isSign

section
variable {first second trace : Trace runInterface} {failure : Option WorkerError} {e : WorkerError}

theorem firstSign_append : firstSign (first ++ second) = (firstSign first).or (firstSign second) :=
  List.find?_append

theorem firstSign_append_of_none (unsigned : firstSign first = none) :
    firstSign (first ++ second) = firstSign second := by
  rw [firstSign_append, unsigned, Option.none_or]

theorem firstSign_announcement {peers : List String} {message : Message} (ok : message.ok = true) :
    firstSign (announcement peers message) = none := by
  refine List.find?_eq_none.mpr fun move member => ?_
  obtain ⟨peer, _, rfl⟩ := List.mem_map.mp member
  have unsigned : (Move.posting peer message (.ok ())).isSign = !message.ok := rfl
  simp [unsigned, ok]

theorem firstSign_posting {recipient : String} {message : Message} (ok : message.ok = true) :
    firstSign [.posting recipient message (.ok ())] = none := @firstSign_announcement [recipient] message ok

/-- Without an error there is no sign of one. An error is due to what came from another worker before
the first sign of one's own, or else it is a cause. -/
def Sincere (trace : Trace runInterface) : Option WorkerError → Prop
  | none => firstSign trace = none
  | some e => (∃ move, firstSign trace = some move ∧ move.isAlarm) ∨ e.distance = 0

/-- A worker that says nothing to others has only heard from them. -/
theorem Blameless.sincere (blameless : Blameless trace failure) (silent : ∀ move ∈ trace, move.1.isSilent) :
    Sincere trace failure := by
  cases failure with
  | none =>
    refine List.find?_eq_none.mpr fun move member => ?_
    simp [Move.isSign, blameless move member, Move.not_isComplaint_of_isSilent (silent move member)]
  | some e =>
    refine blameless.imp_left fun ⟨alarm, member, rings⟩ => ?_
    have signed : (firstSign trace).isSome := by
      rw [firstSign, List.find?_isSome]
      exact ⟨alarm, member, by rw [Move.isSign, rings, Bool.true_or]⟩
    obtain ⟨move, found⟩ := Option.isSome_iff_exists.mp signed
    have quiet := Move.not_isComplaint_of_isSilent (silent move (List.mem_of_find?_eq_some found))
    have sign : move.isSign := List.find?_some found
    exact ⟨move, found, by simpa [Move.isSign, quiet] using sign⟩

theorem Sincere.after (unsigned : firstSign first = none) (sincere : Sincere second failure) :
    Sincere (first ++ second) failure := by
  cases failure <;> simpa [Sincere, firstSign_append_of_none unsigned] using sincere

/-- What comes later does not excuse an error. -/
theorem Sincere.before (sincere : Sincere first (some e)) : Sincere (first ++ second) (some e) := by
  refine sincere.imp_left fun ⟨move, found, alarm⟩ => ⟨move, ?_, alarm⟩
  rw [firstSign_append, found, Option.some_or]

end

namespace Segment
variable {commands : List Command} {trace : Trace runInterface} {failure : Option WorkerError} {w w' : Worker}

theorem sincere (segment : Segment RunCall.isSilent commands w trace failure w') : Sincere trace failure :=
  segment.blameless.sincere segment.calls

theorem sincere_of_local (segment : Segment RunCall.isLocal commands w trace failure w') :
    Sincere trace failure :=
  (segment.weaken (fun _ => RunCall.isSilent_of_isLocal) (List.Subset.refl _)).sincere

end Segment

namespace Worker
variable {w w' : Worker} {trace : Trace runInterface}

theorem PrimaryCourse.sincere {peers : List String} {s : Stream} {base : Word} {r : Except WorkerError Report}
    (course : PrimaryCourse peers s base w trace r w') (delivered : Delivered trace) :
    Sincere trace (failure? r) := by
  cases course with
  | unannounced => cases delivered.last
  | unprepared prepared => exact Sincere.before (.inr (prepare_part _ _ _ _ _ prepared).own)
  | led prepared led =>
    have unsigned := (prepare_part _ _ _ _ _ prepared).sincere_of_local
    refine Sincere.after ?_ led.sincere
    rw [firstSign_append_of_none unsigned]
    exact firstSign_announcement rfl

theorem SecondaryCourse.sincere {polls : Nat} {primary : String} {s : Stream} {base : Word}
    {r : Except WorkerError Report} (course : SecondaryCourse polls primary s base w trace r w')
    (delivered : Delivered trace) : Sincere trace (failure? r) := by
  cases course with
  | untold => cases delivered.last
  | unstarted joined => exact (joinStart_part _ _ _ _ _ _ _ joined).sincere.before
  | @started joining awaiting leaving applied result unlocked told _ _ _ joined completed left =>
    have later : Delivered (awaiting ++ leaving ++ [.posting primary _ told]) :=
      delivered.mono fun _ member => List.mem_append_right _ (List.mem_cons_of_mem _ member)
    obtain rfl := later.last
    have begun : firstSign joining = none := (joinStart_part _ _ _ _ _ _ _ joined).sincere
    have awaited := (awaitComplete_part _ _ _ _ _ _ _ _ _ completed).sincere
    have leaves := leaveClock_part _ _ _ _ _ left
    cases unlocked with
    | error e => exact .inr leaves.own
    | ok u =>
      refine Sincere.after begun ?_
      show Sincere ([.posting primary _ _] ++ (awaiting ++ leaving ++ [.posting primary _ _])) _
      refine Sincere.after (firstSign_posting rfl) ?_
      cases result with
      | error e =>
        rw [List.append_assoc]
        exact Sincere.before awaited
      | ok report =>
        have left : firstSign leaving = none := leaves.sincere_of_local
        have unsigned : Sincere (awaiting ++ leaving) none := Sincere.after awaited left
        exact Sincere.after unsigned (firstSign_posting rfl)

theorem assigned_sincere {polls : Nat} {s : Stream} {base : Word} {role : Role} {r : Except WorkerError Report}
    (runs : Task.Runs (assigned polls s base role) w trace r w') (delivered : Delivered trace) :
    Sincere trace (failure? r) := by
  cases role with
  | primary => exact (runPrimary_course runs).sincere delivered
  | secondary =>
    cases leader : w.config.peers with
    | nil =>
      obtain ⟨_, rfl, _⟩ := runSecondary_alone leader runs
      exact .inr rfl
    | cons primary rest => exact (runSecondary_course leader runs).sincere delivered

theorem run_sincere {polls : Nat} {s : Stream} {r : Except WorkerError Report}
    (runs : Task.Runs (run polls s) w trace r w') (delivered : Delivered trace) :
    Sincere trace (failure? r) := by
  have pruned (answer : Nat) (counter : Word) :
      firstSign [(⟨.prune w.name counter, answer⟩ : Move runInterface)] = none := rfl
  by_cases own : s.name = w.name
  · cases run_course own runs with
    | @completed answer part report mid _ ran =>
      exact Sincere.after (pruned answer _) (assigned_sincere ran (delivered.mono (List.subset_cons_self _ _)))
    | @failed answer part releasing closing e mid _ ran releases closed =>
      have sincere := assigned_sincere ran (delivered.mono fun _ member => by simp [member])
      refine Sincere.after (pruned answer _) ?_
      show Sincere (part ++ releasing ++ closing) _
      rw [List.append_assoc]
      exact sincere.before
  · obtain ⟨_, rfl, _⟩ := runs_foreign own runs
    exact .inr rfl

/-- There is a sign exactly if the run failed. If the first sign that the worker knows of is its own, it
has failed for a cause of its own. -/
def SignsOf (trace : Trace runInterface) : Except WorkerError Report → Prop
  | .ok _ => firstSign trace = none
  | .error e => ∃ move, firstSign trace = some move ∧ (move.isComplaint → e.distance = 0)

theorem runInCrew_signs {polls : Nat} {s : Stream} {r : Except WorkerError Report}
    (runs : Task.Runs (runInCrew polls s) w trace r w') (delivered : Delivered trace) : SignsOf trace r := by
  obtain ⟨part, _, result, mid, rfl, ran, ended⟩ := runs_attempt_bind runs
  have sincere := run_sincere ran (delivered.mono (List.subset_append_left _ _))
  cases result with
  | ok report =>
    obtain ⟨rfl, rfl, rfl⟩ := Task.runs_pure.mp ended
    rw [List.append_nil]
    exact sincere
  | error e =>
    obtain ⟨answer, _, rfl, tail⟩ := runs_ask_bind ended
    obtain ⟨rfl, rfl, rfl⟩ := Task.runs_throw.mp tail
    rw [SignsOf, firstSign_append]
    rcases sincere with ⟨move, found, alarm⟩ | own
    · refine ⟨move, by rw [found, Option.some_or], fun complaint => ?_⟩
      rw [Move.not_isComplaint_of_isAlarm alarm] at complaint
      cases complaint
    · cases signed : firstSign part with
      | some move => exact ⟨move, rfl, fun _ => own⟩
      | none => exact ⟨_, rfl, fun _ => own⟩

end Worker

end Sequencer
