import Sequencer.Proofs.ClientPolicy
import Sequencer.Proofs.Rehearsal
import Sequencer.Proofs.RunCourse

/-!
What a run reports when two things go wrong in it, one after the other.

A primary whose peer has failed returns that failure, whatever its own board answers to the stop. A secondary whose
run does not end well goes back to its own clock as well, but if that fails too it returns the second failure. If its
connection was lost in the first place it always does so, as then nothing can be sent any more. A bus that does not take
the secondary's last message has the last word.
-/
namespace Sequencer

namespace Worker
variable {α β : Type} {w w' mid : Worker} {trace : Trace runInterface}

/-! ### Lost connections -/

/-- A fatal error of the link leaves no connection. -/
def Costly (p : RunM α) : Prop := ∀ w trace board fault w',
  Task.Runs p w trace (.error (.link board fault)) w' → fault.isFatal → w'.client.state = .disconnected

namespace Costly
variable {p : RunM α} {f : α → RunM β}

theorem pure {a : α} : Costly (Pure.pure a : RunM α) := by
  intro w trace board fault w' runs
  cases (Task.runs_pure.mp runs).2.1

theorem throw {e : WorkerError} (other : ∀ board fault, e ≠ .link board fault) :
    Costly (MonadExceptOf.throw e : RunM α) := by
  intro w trace board fault w' runs
  exact absurd (Except.error.inj (Task.runs_throw.mp runs).2.1).symm (other board fault)

theorem bind (first : Costly p) (next : ∀ a, Costly (f a)) : Costly (p >>= f) := by
  intro w trace board fault w' runs fatal
  rcases Task.runs_bind.mp runs with ⟨before, after, a, mid, rfl, ran, goesOn⟩ | ⟨e, same, ran⟩
  · exact next a mid after board fault w' goesOn fatal
  · cases same
    exact first w trace board fault w' ran fatal

theorem get {f : Worker → RunM β} (next : ∀ w, Costly (f w)) : Costly (MonadState.get >>= f) :=
  fun w trace board fault w' runs => next w w trace board fault w' runs

theorem ask {c : RunCall} : Costly (ask c) := by
  intro w trace board fault w' runs
  obtain ⟨_, _, impossible, _⟩ := Task.runs_ask.mp runs
  cases impossible

theorem fail {fault : RunFault} : Costly (fail fault : RunM α) :=
  .get fun _ => .throw fun _ _ => WorkerError.noConfusion

theorem onBoard {p : LinkM α} {R : Client → Prop} (does : ∀ c, Client.Does p c R) : Costly (onBoard p) := by
  intro w trace board fault w' runs fatal
  obtain ⟨result, client, ran, rfl, same⟩ := runs_onBoard runs
  obtain ⟨calls, ran⟩ := Program.runs_ofLink ran
  cases result with
  | ok a => cases same
  | error e =>
    cases same
    have cost := does w.client calls (.error fault) client ran
    dsimp only at cost
    rw [if_pos fatal] at cost
    exact cost.disconnected.state

theorem poll : Costly (Worker.onBoard (Client.poll false)) := by
  refine onBoard (R := fun _ => True) fun c => .bind (Client.require_tells _) fun _ _ => ?_
  exact .bind Client.transact_tells fun _ _ => .modify_pure trivial

theorem collectStopped (peers : List String) (counter : Word) (taken : List Message) :
    Costly (collectStopped peers counter taken) := by
  induction peers generalizing taken with
  | nil => exact .pure
  | cons peer rest ih =>
    refine .bind ?_ ih
    dsimp only
    split
    · exact .pure
    · refine .get fun w => .bind .ask fun answer => ?_
      split
      · exact .pure
      · exact .pure
      · exact .throw fun _ _ => WorkerError.noConfusion

theorem checkLimit (begun : Nat) (limit : Option Nat) : Costly (checkLimit begun limit) := by
  unfold Worker.checkLimit
  split
  · refine .bind .ask fun now => ?_
    split
    · exact .fail
    · exact .pure
  · exact .pure

theorem awaitEnd (begun : Nat) (limit : Option Nat) (peers : List String) (counter : Word) (polls : Nat)
    (clockLost : Bool) (taken : List Message) :
    Costly (awaitEnd begun limit peers counter polls clockLost taken) := by
  induction polls generalizing clockLost taken with
  | zero => exact .bind .ask fun (answer : Empty) => answer.elim
  | succ polls ih =>
    unfold Worker.awaitEnd
    refine .bind (.bind .ask fun aborted => ?_) fun _ => .bind (.collectStopped peers counter taken) fun taken => ?_
    · split
      · exact .fail
      · exact .pure
    refine .bind (.checkLimit begun limit) fun _ => .bind .poll fun status => .get fun w => ?_
    dsimp only
    split
    · exact .pure
    · exact .fail
    · exact .bind (.get fun _ => .ask) fun _ => ih _ _

theorem awaitComplete (polls : Nat) (primary : String) (s : Stream) (base : Word) (applied : ConfigFrame) :
    Costly (awaitComplete polls primary s base applied) := by
  refine .get fun w => .bind (.bind .ask fun begun => .awaitEnd _ _ _ _ _ _ _) fun ending => ?_
  refine .bind ?_ fun _ => .get fun _ => .pure
  unfold verified
  split
  · exact .pure
  · exact .fail

end Costly

/-- Without a connection nothing is asked. -/
theorem setRegister_disconnected {offset value : Word} {r : Except WorkerError Word}
    (lost : w.client.state = .disconnected)
    (runs : Task.Runs (onBoard (Client.setRegister offset value)) w trace r w') :
    r = .error (.link w.name .notConnected) := by
  obtain ⟨result, client, ran, rfl, rfl⟩ := runs_onBoard runs
  obtain ⟨calls, ran⟩ := Program.runs_ofLink ran
  replace ran : Task.Runs (Client.setRegister offset value) w.client calls result client := ran
  unfold Client.setRegister Client.require at ran
  rcases Task.runs_bind.mp ran with ⟨_, _, _, _, _, required, _⟩ | ⟨e, rfl, required⟩
  · replace required := Task.runs_get.mp required
    rw [if_pos lost] at required
    cases (Task.runs_throw.mp required).2.1
  · replace required := Task.runs_get.mp required
    rw [if_pos lost] at required
    obtain ⟨_, same, _⟩ := Task.runs_throw.mp required
    cases same
    rfl

/-- Leaving the clock fails with an error of the link only. -/
theorem leaveClock_result {applied : ConfigFrame} {unlocked : Except WorkerError Unit}
    (left : Task.Runs (leaveClock applied) w trace unlocked w') :
    ∃ result : Except LinkError Unit, unlocked = result.mapError (.link w.name) ∧
      (w.client.state = .disconnected → result = .error .notConnected) := by
  unfold leaveClock at left
  rcases Task.runs_bind.mp left with ⟨first, second, _, w₁, rfl, ran, stopping⟩ | ⟨e, rfl, failed⟩
  · obtain ⟨result, _, _, rfl, rfl⟩ := runs_onBoard stopping
    have name : w₁.name = w.name := by
      obtain ⟨_, _, _, rfl, _⟩ := runs_onBoard ran
      rfl
    refine ⟨result, by rw [name], fun lost => ?_⟩
    cases setRegister_disconnected lost ran
  · obtain ⟨result, _, _, rfl, same⟩ := runs_onBoard failed
    cases result with
    | ok _ => cases same
    | error fault =>
      obtain rfl : e = .link w.name fault := Except.error.inj same
      refine ⟨.error fault, rfl, fun lost => ?_⟩
      cases setRegister_disconnected lost failed
      rfl

/-! ### A secondary whose run does not end well -/

/-- A run of a secondary in which its board was started, and then waiting for the end or verifying what the board
reported has failed. Left are the configuration with the clock to go back to, the worker, and the calls to come. -/
inductive EndFails (polls : Nat) (s : Stream) (w : Worker) :
    Trace runInterface → WorkerError → ConfigFrame → Worker → Trace runInterface → Prop where
  | intro {primary : String} {rest : List String} {pruned : Nat} {joining awaiting later : Trace runInterface}
      {applied : ConfigFrame} {e : WorkerError} {started mid : Worker} (leader : w.config.peers = primary :: rest)
      (joined : Task.Runs (joinStart primary s (w.counter + 1)) { w with counter := w.counter + 3 } joining
        (.ok applied) started)
      (failed : Task.Runs (awaitComplete polls primary s w.counter applied) started awaiting (.error e) mid) :
      EndFails polls s w (⟨.prune w.name (w.counter + 1), pruned⟩ :: (joining ++
        .posting primary ⟨Event.started, w.name, w.counter + 2, true, false⟩ (.ok ()) :: (awaiting ++ later)))
        e applied mid later

/-- What follows decides between the errors. -/
theorem SecondaryCourse.outcome {polls : Nat} {primary : String} {s : Stream} {base : Word}
    {part joining awaiting l right : Trace runInterface} {applied : ConfigFrame} {e : WorkerError}
    {r : Except WorkerError Report} {started : Worker} {message : Message}
    (course : SecondaryCourse polls primary s base w part r w')
    (joined : Task.Runs (joinStart primary s (base + 1)) w joining (.ok applied) started)
    (failed : Task.Runs (awaitComplete polls primary s base applied) started awaiting (.error e) mid)
    (agree : part ++ l = joining ++ .posting primary message (.ok ()) :: (awaiting ++ right)) :
    ∃ leaving more unlocked told after,
      right = leaving ++ .posting primary ⟨Event.stopped, w.name, base + 3, false, false⟩ told :: more ∧
      Task.Runs (leaveClock applied) mid leaving unlocked after ∧
      r = (told.mapError .barrier >>= fun _ => unlocked >>= fun _ => .error e) := by
  cases course with
  | untold joined' =>
    rw [List.append_assoc] at agree
    obtain ⟨rfl, _⟩ := Program.Runs.unique joined' joined agree
    cases (List.cons.inj (List.append_cancel_left agree)).1
  | unstarted joined' =>
    rw [List.append_assoc] at agree
    cases (Program.Runs.unique joined' joined agree).2
  | @started joining' awaiting' leaving applied' result unlocked told w₁ w₂ _ joined' completed' leaves =>
    rw [List.append_assoc, List.cons_append] at agree
    obtain ⟨rfl, same⟩ := Program.Runs.unique joined' joined agree
    cases same
    replace agree := (List.cons.inj (List.append_cancel_left agree)).2
    rw [List.append_assoc, List.append_assoc] at agree
    obtain ⟨rfl, same⟩ := Program.Runs.unique completed' failed agree
    cases same
    exact ⟨leaving, l, unlocked, told, w', (List.append_cancel_left agree).symm, leaves, rfl⟩

theorem EndFails.outcome {polls : Nat} {s : Stream} {e : WorkerError} {applied : ConfigFrame}
    {later : Trace runInterface} {r : Except WorkerError Report} (fails : EndFails polls s w trace e applied mid later)
    (role : w.config.role = .secondary) (own : s.name = w.name) (runs : Task.Runs (run polls s) w trace r w') :
    ∃ primary leaving more unlocked told after,
      later = leaving ++ .posting primary ⟨Event.stopped, w.name, w.counter + 3, false, false⟩ told :: more ∧
      Task.Runs (leaveClock applied) mid leaving unlocked after ∧
      r = (told.mapError .barrier >>= fun _ => unlocked >>= fun _ => .error e) := by
  cases fails with
  | intro leader joined failed =>
    obtain ⟨_, part, closing, after, calls, ran⟩ := run_assigned own runs
    exact ⟨_, (assigned_follows role leader ran).outcome joined failed (List.cons.inj calls).2.symm⟩

/-! ### A primary whose peer has failed -/

/-- A primary's way from the announcement to the end of its board. -/
def reachEnd (polls : Nat) (s : Stream) (base : Word) (secondaries : List String) (applied : ConfigFrame) :
    RunM Ending := do
  secondaries.forM fun peer => do
    let _ ← wait peer Event.started (base + 2)
  onBoard (Client.start applied.cycles)
  let limit := runLimit (← get).settings s applied.cycles
  waitForEnd polls limit secondaries (base + 3)

theorem lead_eq (polls : Nat) (s : Stream) (base : Word) (secondaries : List String) (applied : ConfigFrame) :
    lead polls s base secondaries applied =
      reachEnd polls s base secondaries applied >>= conclude s base secondaries applied := by
  simp only [lead, reachEnd, bind_assoc]

/-- A run of a primary that announced that it was ready, and in which then something went wrong: before its board had
ended, be it a message that a peer has failed, or with the last messages of its peers. -/
inductive PeerFails (polls : Nat) (s : Stream) (w : Worker) : Trace runInterface → WorkerError → Prop where
  | early {pruned : Nat} {preparing leading later : Trace runInterface} {applied : ConfigFrame} {e : WorkerError}
      {ready mid : Worker}
      (prepared : Task.Runs (prepare s) { w with counter := w.counter + 3 } preparing (.ok applied) ready)
      (led : Task.Runs (reachEnd polls s w.counter w.config.peers applied) ready leading (.error e) mid) :
      PeerFails polls s w (⟨.prune w.name (w.counter + 1), pruned⟩ :: (preparing ++
        (announcement w.config.peers ⟨Event.start, w.name, w.counter + 1, true, false⟩ ++ (leading ++ later)))) e
  | late {pruned : Nat} {preparing leading gathering later : Trace runInterface} {applied : ConfigFrame}
      {ending : Ending} {warned : List String} {e : WorkerError} {ready ended mid : Worker}
      (prepared : Task.Runs (prepare s) { w with counter := w.counter + 3 } preparing (.ok applied) ready)
      (led : Task.Runs (reachEnd polls s w.counter w.config.peers applied) ready leading (.ok ending) ended)
      (gathered : Task.Runs (gatherStopped w.config.peers (w.counter + 3) ending.taken) ended gathering
        (.ok (warned, some e)) mid) :
      PeerFails polls s w (⟨.prune w.name (w.counter + 1), pruned⟩ :: (preparing ++
        (announcement w.config.peers ⟨Event.start, w.name, w.counter + 1, true, false⟩ ++
          (leading ++ (gathering ++ later))))) e

/-- A primary that is ready goes on with its announcement and what it leads to. -/
theorem primary_leads {polls pruned : Nat} {s : Stream} {preparing onward : Trace runInterface}
    {applied : ConfigFrame} {r : Except WorkerError Report} (role : w.config.role = .primary) (own : s.name = w.name)
    (runs : Task.Runs (run polls s) w (⟨.prune w.name (w.counter + 1), pruned⟩ :: (preparing ++
      (announcement w.config.peers ⟨Event.start, w.name, w.counter + 1, true, false⟩ ++ onward))) r w')
    (prepared : Task.Runs (prepare s) { w with counter := w.counter + 3 } preparing (.ok applied) mid) :
    ∃ leading l after, leading ++ l = onward ∧
      Task.Runs (lead polls s w.counter w.config.peers applied) mid leading r after := by
  obtain ⟨_, part, l, after, calls, ran⟩ := run_assigned own runs
  replace calls := (List.cons.inj calls).2.symm
  rw [role] at ran
  change Task.Runs (runPrimary polls s w.counter) _ _ _ _ at ran
  rw [runPrimary_eq] at ran
  replace ran := Task.runs_get.mp ran
  obtain ⟨_, rfl, calls, announcing⟩ := Task.Runs.after ran (runs_attempt.mpr ⟨_, rfl, prepared⟩) calls
  have name : mid.name = w.name := congrArg (·.1.name) (prepare_part s _ _ _ _ prepared).fixed
  rw [← name] at calls
  obtain ⟨leading, agree, leads⟩ := runs_announced announcing calls
  rcases Task.runs_result.mp leads with ⟨_, same, leads⟩ | ⟨_, impossible, _⟩
  · cases same
    exact ⟨leading, l, after, agree, leads⟩
  · cases impossible

/-- The stop comes too late to be the cause. -/
theorem conclude_outcome {s : Stream} {base : Word} {secondaries : List String} {applied : ConfigFrame}
    {ending : Ending} {gathering l right : Trace runInterface} {warned : List String} {e : WorkerError}
    {r : Except WorkerError Report} (runs : Task.Runs (conclude s base secondaries applied ending) w trace r w')
    (gathered : Task.Runs (gatherStopped secondaries (base + 3) ending.taken) w gathering (.ok (warned, some e)) mid)
    (agree : trace ++ l = gathering ++ right) : r = .error e := by
  obtain ⟨_, rfl, _, stopping⟩ := Task.Runs.after runs gathered agree
  obtain ⟨_, _, stopped, _, rfl, _, ended⟩ := runs_attempt_bind stopping
  exact (Task.runs_throw.mp ended).2.1

theorem PeerFails.outcome {polls : Nat} {s : Stream} {e : WorkerError} {r : Except WorkerError Report}
    (fails : PeerFails polls s w trace e) (role : w.config.role = .primary) (own : s.name = w.name)
    (runs : Task.Runs (run polls s) w trace r w') : r = .error e := by
  cases fails with
  | early prepared led =>
    obtain ⟨leading, l, after, agree, leads⟩ := primary_leads role own runs prepared
    rw [lead_eq] at leads
    exact Task.Runs.after_error leads led agree
  | late prepared led gathered =>
    obtain ⟨leading, l, after, agree, leads⟩ := primary_leads role own runs prepared
    rw [lead_eq] at leads
    obtain ⟨_, rfl, atEnd, concluding⟩ := Task.Runs.after leads led agree
    exact conclude_outcome concluding gathered atEnd

/-! ### What is reported -/

theorem EndFails.left {polls : Nat} {s : Stream} {e : WorkerError} {applied : ConfigFrame}
    {later : Trace runInterface} (fails : EndFails polls s w trace e applied mid later) :
    mid.name = w.name ∧ ∀ board fault, e = .link board fault → fault.isFatal → mid.client.state = .disconnected := by
  cases fails with
  | intro leader joined failed =>
    have first := joinStart_part _ _ _ _ _ _ _ joined
    have second := awaitComplete_part _ _ _ _ _ _ _ _ _ failed
    refine ⟨congrArg (·.1.name) (second.fixed.trans first.fixed), ?_⟩
    rintro board fault rfl
    exact Costly.awaitComplete _ _ _ _ _ _ _ _ _ _ failed

/-- Of two errors the second one is reported. -/
theorem cause_kept_iff {board : String} {e : WorkerError} {unlocked : Except LinkError Unit} :
    (unlocked.mapError (.link board) >>= fun _ => .error e : Except WorkerError Report) = .error e ↔
      ∀ fault, unlocked = .error fault → e = .link board fault := by
  cases unlocked with
  | ok _ =>
    constructor
    · intro _ _ failed
      cases failed
    · exact fun _ => rfl
  | error fault =>
    constructor
    · intro same _ failed
      cases failed
      exact (Except.error.inj same).symm
    · intro same
      exact congrArg Except.error (same fault rfl).symm

/-- A secondary whose board did not end well returns the cause if going back to its own clock succeeds, and otherwise
what the link reported then: the cause exactly if both are the same. Where the cause was a fatal error of the link,
the link always reports a missing connection. Before all that comes the error of a bus that refuses to say that the
secondary has stopped. A primary that was told of a peer's failure returns it, whatever its own board answers to the
stop. -/
theorem failures_reported {polls : Nat} {s : Stream} {r : Except WorkerError Report} (own : s.name = w.name)
    (runs : Task.Runs (run polls s) w trace r w') :
    (w.config.role = .secondary → ∀ e applied mid later, EndFails polls s w trace e applied mid later →
      ∃ primary leaving more told after, ∃ unlocked : Except LinkError Unit,
        later = leaving ++ .posting primary ⟨Event.stopped, w.name, w.counter + 3, false, false⟩ told :: more ∧
        Task.Runs (leaveClock applied) mid leaving (unlocked.mapError (.link w.name)) after ∧
        r = (told.mapError .barrier >>= fun _ => unlocked.mapError (.link w.name) >>= fun _ => .error e) ∧
        (told = .ok () → (r = .error e ↔ ∀ fault, unlocked = .error fault → e = .link w.name fault)) ∧
        ∀ board fault, e = .link board fault → fault.isFatal → unlocked = .error .notConnected) ∧
    (w.config.role = .primary → ∀ e, PeerFails polls s w trace e → r = .error e) := by
  constructor
  · intro role e applied mid later fails
    obtain ⟨name, lost⟩ := fails.left
    obtain ⟨primary, leaving, more, unlocked, told, after, rfl, leaves, rfl⟩ := fails.outcome role own runs
    obtain ⟨result, rfl, missing⟩ := leaveClock_result leaves
    rw [name] at leaves ⊢
    refine ⟨primary, leaving, more, told, after, result, rfl, leaves, rfl, ?_, ?_⟩
    · rintro rfl
      exact cause_kept_iff
    · exact fun board fault same fatal => missing (lost board fault same fatal)
  · intro role e fails
    exact fails.outcome role own runs

/-! ### Runs put together from their parts -/

theorem follow_runs {polls : Nat} {primary : String} {s : Stream} {base : Word} {applied : ConfigFrame}
    {joining awaiting leaving : Trace runInterface} {result : Except WorkerError Report}
    {unlocked : Except WorkerError Unit} {w₁ w₂ : Worker}
    (joined : Task.Runs (joinStart primary s (base + 1)) w joining (.ok applied) w₁)
    (completed : Task.Runs (awaitComplete polls primary s base applied) w₁ awaiting result w₂)
    (left : Task.Runs (leaveClock applied) w₂ leaving unlocked w') :
    ∃ later, Task.Runs (follow polls primary s base) w (joining ++
      .posting primary ⟨Event.started, w.name, base + 2, true, false⟩ (.ok ()) :: (awaiting ++ later))
      (unlocked >>= fun _ => result) w' := by
  have name₁ : w₁.name = w.name := congrArg (·.1.name) (joinStart_part _ _ _ _ _ _ _ joined).fixed
  refine ⟨leaving ++ [.posting primary
    ⟨Event.stopped, w'.name, base + 3, result.toBool && unlocked.toBool, clockLostIn result⟩ (.ok ())], ?_⟩
  refine Task.runs_bind.mpr (.inl ⟨joining, _, .ok applied, w₁, rfl, runs_attempt.mpr ⟨_, rfl, joined⟩, ?_⟩)
  rw [← name₁]
  refine runs_post_bind.mpr (.inl ⟨_, rfl, Task.runs_result.mpr (.inl ⟨applied, rfl, ?_⟩)⟩)
  refine Task.runs_bind.mpr (.inl ⟨awaiting, _, result, w₂, rfl, runs_attempt.mpr ⟨_, rfl, completed⟩, ?_⟩)
  refine Task.runs_bind.mpr (.inl ⟨leaving, _, unlocked, w', rfl, runs_attempt.mpr ⟨_, rfl, left⟩, ?_⟩)
  refine runs_post_bind.mpr (.inl ⟨[], rfl, ?_⟩)
  cases unlocked with
  | ok _ => exact Task.runs_result.mpr (.inl ⟨_, rfl, Task.runs_liftM.mpr ⟨rfl, rfl, rfl⟩⟩)
  | error e => exact Task.runs_result.mpr (.inr ⟨e, rfl, rfl, rfl, rfl⟩)

theorem assigned_runs_lead {polls : Nat} {s : Stream} {base : Word}
    {preparing leading gathering stopping : Trace runInterface} {applied : ConfigFrame} {ending : Ending}
    {warned : List String} {e : WorkerError} {stopped : Except WorkerError Unit} {ready ended : Worker}
    (role : w.config.role = .primary)
    (prepared : Task.Runs (prepare s) { w with counter := w.counter + 3 } preparing (.ok applied) ready)
    (led : Task.Runs (reachEnd polls s base w.config.peers applied) ready leading (.ok ending) ended)
    (gathered : Task.Runs (gatherStopped w.config.peers (base + 3) ending.taken) ended gathering
      (.ok (warned, some e)) mid)
    (stop : Task.Runs (onBoard Client.stop) mid stopping stopped w') :
    Task.Runs (assigned polls s base w.config.role) { w with counter := w.counter + 3 } (preparing ++
      (announcement w.config.peers ⟨Event.start, w.name, base + 1, true, false⟩ ++
        (leading ++ (gathering ++ stopping)))) (.error e) w' := by
  have name : ready.name = w.name := congrArg (·.1.name) (prepare_part s _ _ _ _ prepared).fixed
  rw [role]
  change Task.Runs (runPrimary polls s base) _ _ _ _
  rw [runPrimary_eq]
  refine Task.runs_get.mpr (Task.runs_bind.mpr (.inl ⟨_, _, .ok applied, ready, rfl, ?_, ?_⟩))
  · exact runs_attempt.mpr ⟨_, rfl, prepared⟩
  rw [← name]
  refine postAll_runs (Task.runs_result.mpr (.inl ⟨applied, rfl, ?_⟩))
  rw [lead_eq]
  refine Task.runs_bind.mpr (.inl ⟨leading, _, ending, ended, rfl, led, ?_⟩)
  refine Task.runs_bind.mpr (.inl ⟨gathering, _, (warned, some e), mid, rfl, gathered, ?_⟩)
  refine Task.runs_bind.mpr (.inl ⟨stopping, [], stopped, w', (List.append_nil _).symm, ?_, ?_⟩)
  · exact runs_attempt.mpr ⟨_, rfl, stop⟩
  · exact Task.runs_throw.mpr ⟨rfl, rfl, rfl⟩

theorem exists_peerFails {polls : Nat} {s : Stream} {preparing leading gathering stopping closing : Trace runInterface}
    {applied : ConfigFrame} {ending : Ending} {warned : List String} {e : WorkerError}
    {stopped : Except WorkerError Unit} {ready ended after : Worker} (role : w.config.role = .primary)
    (own : s.name = w.name)
    (prepared : Task.Runs (prepare s) { w with counter := w.counter + 3 } preparing (.ok applied) ready)
    (led : Task.Runs (reachEnd polls s w.counter w.config.peers applied) ready leading (.ok ending) ended)
    (gathered : Task.Runs (gatherStopped w.config.peers (w.counter + 3) ending.taken) ended gathering
      (.ok (warned, some e)) mid)
    (stop : Task.Runs (onBoard Client.stop) mid stopping stopped after)
    (closed : Task.Runs abortBoard after closing (.ok ()) w') : ∃ trace,
      Task.Runs (run polls s) w trace (.error e) w' ∧ PeerFails polls s w trace e := by
  have ran := assigned_runs_lead role prepared led gathered stop
  refine ⟨_, run_of_failed 0 own ran closed, ?_⟩
  simp only [List.append_assoc]
  exact .late prepared led gathered

/-- Such a run can happen, with whatever parts that fit together. -/
theorem exists_endFails {polls : Nat} {s : Stream} {primary : String} {rest : List String} {applied : ConfigFrame}
    {joining awaiting leaving closing : Trace runInterface} {e : WorkerError} {unlocked : Except WorkerError Unit}
    {started after : Worker} (role : w.config.role = .secondary) (own : s.name = w.name)
    (leader : w.config.peers = primary :: rest)
    (joined : Task.Runs (joinStart primary s (w.counter + 1)) { w with counter := w.counter + 3 } joining
      (.ok applied) started)
    (failed : Task.Runs (awaitComplete polls primary s w.counter applied) started awaiting (.error e) mid)
    (left : Task.Runs (leaveClock applied) mid leaving unlocked after)
    (closed : Task.Runs abortBoard after closing (.ok ()) w') : ∃ trace later,
      Task.Runs (run polls s) w trace (unlocked >>= fun _ => .error e) w' ∧
        EndFails polls s w trace e applied mid later := by
  obtain ⟨later, followed⟩ := follow_runs joined failed left
  have ran := assigned_runs_follow role leader followed
  obtain ⟨e', outcome⟩ : ∃ e', (unlocked >>= fun _ => .error e : Except WorkerError Report) = .error e' := by
    cases unlocked with
    | ok _ => exact ⟨e, rfl⟩
    | error e' => exact ⟨e', rfl⟩
  rw [outcome] at ran ⊢
  refine ⟨_, later ++ (announcement (toRelease w) (release w) ++ closing), run_of_failed 0 own ran closed, ?_⟩
  rw [List.append_assoc, List.cons_append, List.append_assoc]
  exact .intro leader joined failed

end Worker

namespace Team
open Worker

/-- A part that succeeds. -/
def achieved {α : Type} (p : RunM α) (w : Worker) (frames : List Frame) (mail : List (String × Message)) :
    Option (α × Worker) :=
  (performed p w frames mail).bind fun out => out.2.1.toOption.map fun a => (a, out.2.2)

theorem achieved_runs {α : Type} {p : RunM α} {w w' : Worker} {frames : List Frame} {mail : List (String × Message)}
    {a : α} (made : achieved p w frames mail = some (a, w')) : ∃ trace, Task.Runs p w trace (.ok a) w' := by
  obtain ⟨⟨trace, r, _⟩, played, kept⟩ := Option.bind_eq_some_iff.mp made
  cases r with
  | error _ => cases kept
  | ok _ =>
    cases kept
    exact ⟨trace, performed_runs played⟩

/-- A secondary starts its board, which then reports an error state and gives these replies when the clock is left:
the cause, and how leaving the clock went. -/
def endInError (unlocking : List Frame) : Option (WorkerError × Except WorkerError Unit) :=
  (achieved (joinStart "main" (sampleStream side) (side.worker.counter + 1))
    { side.worker with counter := side.worker.counter + 3 } [.ack, .ack, .getRegister ⟨Register.control, 0⟩,
      .setRegister ⟨Register.control, 0⟩, .statusReply { status := Status.externalLocked }, .config { cycles := 1 },
      .ack, .ack, .ack] [("side", ⟨Event.start, "main", 1, true, false⟩)]).bind fun joined =>
  (performed (awaitComplete 5 "main" (sampleStream side) side.worker.counter joined.1) joined.2
    [.statusReply { status := Status.errorTime }] []).bind fun failed =>
  (performed (leaveClock joined.1) failed.2.2 unlocking []).bind fun left =>
  (achieved abortBoard left.2.2 [.ack, .ack] []).bind fun _ =>
  match failed.2.1 with
  | .error e => some (e, left.2.1)
  | .ok _ => none

theorem endInError_runs {unlocking : List Frame} {e : WorkerError} {unlocked : Except WorkerError Unit}
    (made : endInError unlocking = some (e, unlocked)) : ∃ trace w' applied mid later,
      Task.Runs (run 5 (sampleStream side)) side.worker trace (unlocked >>= fun _ => .error e) w' ∧
      EndFails 5 (sampleStream side) side.worker trace e applied mid later := by
  obtain ⟨⟨applied, started⟩, first, made⟩ := Option.bind_eq_some_iff.mp made
  obtain ⟨⟨awaiting, result, mid⟩, second, made⟩ := Option.bind_eq_some_iff.mp made
  obtain ⟨⟨leaving, left, after⟩, third, made⟩ := Option.bind_eq_some_iff.mp made
  obtain ⟨⟨_, w'⟩, fourth, made⟩ := Option.bind_eq_some_iff.mp made
  cases result with
  | ok _ => cases made
  | error e' =>
    cases made
    obtain ⟨joining, joined⟩ := achieved_runs first
    obtain ⟨closing, closed⟩ := achieved_runs fourth
    obtain ⟨trace, later, runs, fails⟩ := exists_endFails (w := side.worker) rfl rfl rfl joined
      (performed_runs second) (performed_runs third) closed
    exact ⟨trace, w', applied, mid, later, runs, fails⟩

/-- A primary's board ends, its peer has failed, and the board gives this reply to the stop: the cause, and how the
stop went. -/
def endBesideFailure (stopping : List Frame) : Option (WorkerError × Except WorkerError Unit) :=
  (achieved (prepare (sampleStream sample.primary))
    { sample.primary.worker with counter := sample.primary.worker.counter + 3 }
    [.ack, .ack, .config { cycles := 1 }, .ack, .ack] []).bind fun prepared =>
  (achieved (reachEnd 5 (sampleStream sample.primary) sample.primary.worker.counter sample.primary.config.peers
    prepared.1) prepared.2
    [.ack, .statusReply { status := Status.ended, time := 5, samples := 2 }]
    [("main", ⟨Event.started, "side", 2, true, false⟩)]).bind fun led =>
  (achieved (gatherStopped sample.primary.config.peers (sample.primary.worker.counter + 3) led.1.taken) led.2
    [] [("main", ⟨Event.stopped, "side", 3, false, false⟩)]).bind fun gathered =>
  (performed (onBoard Client.stop) gathered.2 stopping []).bind fun stopped =>
  (achieved abortBoard stopped.2.2 [.ack, .ack] []).bind fun _ =>
  gathered.1.2.map fun e => (e, stopped.2.1)

theorem endBesideFailure_runs {stopping : List Frame} {e : WorkerError} {stopped : Except WorkerError Unit}
    (made : endBesideFailure stopping = some (e, stopped)) : ∃ trace w',
      Task.Runs (run 5 (sampleStream sample.primary)) sample.primary.worker trace (.error e) w' ∧
      PeerFails 5 (sampleStream sample.primary) sample.primary.worker trace e := by
  obtain ⟨⟨applied, ready⟩, first, made⟩ := Option.bind_eq_some_iff.mp made
  obtain ⟨⟨ending, ended⟩, second, made⟩ := Option.bind_eq_some_iff.mp made
  obtain ⟨⟨⟨warned, failure⟩, mid⟩, third, made⟩ := Option.bind_eq_some_iff.mp made
  obtain ⟨⟨stopping, stop, after⟩, fourth, made⟩ := Option.bind_eq_some_iff.mp made
  obtain ⟨⟨_, w'⟩, fifth, made⟩ := Option.bind_eq_some_iff.mp made
  cases failure with
  | none => cases made
  | some e' =>
    cases made
    obtain ⟨preparing, prepared⟩ := achieved_runs first
    obtain ⟨leading, led⟩ := achieved_runs second
    obtain ⟨gathering, gathered⟩ := achieved_runs third
    obtain ⟨closing, closed⟩ := achieved_runs fifth
    obtain ⟨trace, runs, fails⟩ := exists_peerFails (w := sample.primary.worker) rfl rfl prepared led gathered
      (performed_runs fourth) closed
    exact ⟨trace, w', runs, fails⟩

def isErrorState : WorkerError → Bool
  | .run _ (.errorState _) => true
  | _ => false

def isRefusal : Except WorkerError Unit → Bool
  | .error (.link _ (.refused _)) => true
  | _ => false

/-- A secondary whose board was in an error state and then took the request and the stop, and a primary whose peer
has failed and whose board then refused to stop. -/
theorem sample_failures_reported :
    (∃ trace w' e applied mid later, isErrorState e ∧
      Task.Runs (run 5 (sampleStream side)) side.worker trace (.error e) w' ∧
      EndFails 5 (sampleStream side) side.worker trace e applied mid later ∧
      ∃ leaving more after, ∃ unlocked : Except LinkError Unit, later = leaving ++ more ∧
        Task.Runs (leaveClock applied) mid leaving (unlocked.mapError (.link side.worker.name)) after ∧
        ∀ fault, unlocked = .error fault → e = .link side.worker.name fault) ∧
    ∃ trace r w' e, Task.Runs (run 5 (sampleStream sample.primary)) sample.primary.worker trace r w' ∧
      PeerFails 5 (sampleStream sample.primary) sample.primary.worker trace e ∧ r = .error e := by
  constructor
  · have checked : (endInError [.setRegister ⟨Register.control, 0⟩, .ack]).any
        (fun out => isErrorState out.1 && out.2.toBool) := by decide +kernel
    obtain ⟨⟨e, unlocked⟩, made, holds⟩ := (Option.any_eq_true _ _).mp checked
    obtain ⟨state, left⟩ := Bool.and_eq_true_iff.mp holds
    obtain ⟨trace, w', applied, mid, later, runs, fails⟩ := endInError_runs made
    cases unlocked with
    | error _ => cases left
    | ok _ =>
      obtain ⟨_, leaving, more, told, after, unlocked, split, leaves, same, kept, _⟩ :=
        (failures_reported rfl runs).1 rfl e applied mid later fails
      cases told with
      | error _ =>
        cases same
        cases state
      | ok _ =>
        exact ⟨trace, w', e, applied, mid, later, state, runs, fails, leaving, _, after, unlocked, split, leaves,
          (kept rfl).mp rfl⟩
  · have checked : (endBesideFailure [.nack]).any (fun out => isRefusal out.2) := by decide +kernel
    obtain ⟨⟨e, stopped⟩, made, _⟩ := (Option.any_eq_true _ _).mp checked
    obtain ⟨trace, w', runs, fails⟩ := endBesideFailure_runs made
    exact ⟨trace, _, w', e, runs, fails, (failures_reported rfl runs).2 rfl e fails⟩

/-- The board is in an error state, and the secondary returns that its request was refused. -/
theorem refusal_hides_cause :
    ¬ ∀ polls s w trace r w' e applied mid later, w.config.role = .secondary → s.name = w.name →
      Task.Runs (run polls s) w trace r w' → EndFails polls s w trace e applied mid later → r = .error e := by
  intro claim
  have checked : (endInError [.nack]).any (fun out => isErrorState out.1 && isRefusal out.2) := by decide +kernel
  obtain ⟨⟨e, unlocked⟩, made, holds⟩ := (Option.any_eq_true _ _).mp checked
  obtain ⟨state, refused⟩ := Bool.and_eq_true_iff.mp holds
  obtain ⟨trace, w', applied, mid, later, runs, fails⟩ := endInError_runs made
  have outcome := claim 5 (sampleStream side) side.worker trace _ w' e applied mid later rfl rfl runs fails
  cases unlocked with
  | ok _ => cases refused
  | error fault =>
    cases outcome
    cases e with
    | run _ fault => cases refused
    | _ => cases state

end Team

end Sequencer
