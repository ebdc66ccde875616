import Sequencer.Proofs.Segments

/-!
What each part of a worker's run does, whatever it is answered.
-/
namespace Sequencer

/-- What a client's program does in a worker's it does on its own. -/
theorem Program.runs_ofLink {α : Type} {p : Program linkInterface α} {trace : Trace runInterface} {a : α}
    (runs : (Program.ofLink p).Runs trace a) : ∃ calls, p.Runs calls a := by
  induction p generalizing trace with
  | done b =>
    obtain ⟨_, rfl⟩ := runs_done.mp runs
    exact ⟨[], .stay _⟩
  | call c next ih =>
    obtain ⟨answer, later, rfl, goesOn⟩ := runs_call.mp runs
    obtain ⟨calls, ran⟩ := ih answer goesOn
    exact ⟨⟨c, answer⟩ :: calls, runs_call.mpr ⟨answer, calls, rfl, ran⟩⟩

namespace Worker
variable {α β : Type} {w w' : Worker} {trace : Trace runInterface} {calls : RunCall → Bool}
  {commands : List Command} {v : View}

theorem runs_attempt {p : RunM α} {r : Except WorkerError (Except WorkerError α)} :
    Task.Runs (attempt p) w trace r w' ↔ ∃ result, r = .ok result ∧ Task.Runs p w trace result w' := by
  refine Program.runs_bind.trans ?_
  constructor
  · rintro ⟨first, second, ⟨result, mid⟩, rfl, ran, ended⟩
    obtain ⟨rfl, same⟩ := Program.runs_done.mp ended
    cases same
    rw [List.append_nil]
    exact ⟨result, rfl, ran⟩
  · rintro ⟨result, rfl, ran⟩
    exact ⟨trace, [], (result, w'), (List.append_nil _).symm, ran, .stay _⟩

/-- An attempt never fails. -/
theorem runs_attempt_bind {p : RunM α} {f : Except WorkerError α → RunM β} {r : Except WorkerError β}
    (runs : Task.Runs (attempt p >>= f) w trace r w') : ∃ first second result mid,
      trace = first ++ second ∧ Task.Runs p w first result mid ∧ Task.Runs (f result) mid second r w' := by
  rcases Task.runs_bind.mp runs with ⟨first, second, result, mid, rfl, ran, goesOn⟩ | ⟨e, _, ran⟩
  · obtain ⟨_, same, ran⟩ := runs_attempt.mp ran
    obtain rfl := Except.ok.inj same
    exact ⟨first, second, result, mid, rfl, ran, goesOn⟩
  · obtain ⟨_, impossible, _⟩ := runs_attempt.mp ran
    cases impossible

theorem ofLink_calls {p : Program linkInterface α} {a : α} (runs : (Program.ofLink p).Runs trace a) :
    ∀ move ∈ trace, move.1.isLocal := by
  induction p generalizing trace with
  | done b =>
    obtain ⟨rfl, _⟩ := Program.runs_done.mp runs
    simp
  | call c next ih =>
    obtain ⟨answer, later, rfl, goesOn⟩ := Program.runs_call.mp runs
    intro move member
    rcases List.mem_cons.mp member with rfl | member
    · rfl
    · exact ih answer goesOn move member

theorem runs_onBoard {p : LinkM α} {r : Except WorkerError α}
    (runs : Task.Runs (onBoard p) w trace r w') : ∃ result client,
      (Program.ofLink (p.run.run w.client)).Runs trace (result, client) ∧
        w' = { w with client } ∧ r = result.mapError (.link w.name) := by
  rcases Task.runs_bind.mp (Task.runs_get.mp runs) with ⟨first, second, out, mid, rfl, ran, ended⟩ | ⟨e, rfl, ran⟩
  · obtain ⟨_, same, rfl, ran⟩ := Task.runs_lift.mp ran
    obtain rfl := Except.ok.inj same
    obtain ⟨result, client⟩ := out
    replace ended := Task.runs_set.mp ended
    cases result with
    | ok a =>
      obtain ⟨rfl, rfl, rfl⟩ := Task.runs_pure.mp ended
      exact ⟨.ok a, client, by simpa using ran, rfl, rfl⟩
    | error e =>
      obtain ⟨rfl, rfl, rfl⟩ := Task.runs_throw.mp ended
      exact ⟨.error e, client, by simpa using ran, rfl, rfl⟩
  · obtain ⟨_, impossible, _⟩ := Task.runs_lift.mp ran
    cases impossible

/-- What holds of a client's program, whatever the board answers, holds of its runs. -/
theorem onBoard_runs {p : LinkM α} {Q : Except LinkError α → Client → View → Prop}
    {r : Except WorkerError α} (spec : Task.wp (linkWatch .free) p Q w.client v)
    (runs : Task.Runs (onBoard p) w trace r w') : ∃ result client, Q result client (v.along trace) ∧
      w' = { w with client } ∧ r = result.mapError (.link w.name) := by
  obtain ⟨result, client, ran, same, outcome⟩ := runs_onBoard runs
  have possible : ∀ move ∈ trace, (runWatch .free).possible move.1 move.2 := by
    intro ⟨c, answer⟩ member
    have isLocal := ofLink_calls ran _ member
    cases c with
    | link _ | connect | now | pause _ => trivial
    | _ => cases isLocal
  exact ⟨result, client, Program.wp_runs (wp_ofLink spec) possible ran, same, outcome⟩

theorem onBoard_part {p : LinkM α} (talks : Client.Talks .free commands p) :
    Part RunCall.isLocal commands (onBoard p) := by
  intro w trace r w' runs
  have local_ : ∀ move ∈ trace, move.1.isLocal := by
    obtain ⟨_, _, ran, _⟩ := runs_onBoard runs
    exact ofLink_calls ran
  obtain ⟨result, client, _, rfl, rfl⟩ := runs_onBoard runs
  refine ⟨rfl, rfl, local_, fun v ready => ?_, fun stays v ready => ?_, .of_local local_ fun e failed => ?_⟩
  · obtain ⟨_, _, ⟨grows, _⟩, _⟩ := onBoard_runs (talks w.client v ready) runs
    refine grows.weaken fun x talk => ?_
    cases x with
    | requested request => exact talk
    | _ => rfl
  · obtain ⟨_, other, ⟨_, touch⟩, same, _⟩ := onBoard_runs (talks w.client v ready) runs
    rw [congrArg Worker.client same]
    exact touch stays
  · cases result with
    | ok a => cases failed
    | error e' =>
      rw [← Option.some.inj failed]
      rfl

/-- A request to the board. -/
theorem asking_part {p : LinkM α} {request : Frame} {expected : Command} {allowed : List LinkState}
    {value : Frame → α} (listed : request.command ∈ commands) (reply : request.reply = expected)
    (spec : ∀ c v, v.line = .ready →
      Task.wp (linkWatch .free) p (v.Asks request expected allowed value c) c v) :
    Part RunCall.isLocal commands (onBoard p) := onBoard_part (Client.asked_talks listed reply spec)

/-- A call of which nothing is heard but a message that was taken. -/
theorem asked_segment {c : RunCall} {answer : c.Answer} {failure : Option WorkerError} (allowed : calls c)
    (told : ∀ line, ∃ messages : List Message, Line.hear line c answer = (line, messages.map .took))
    (blameless : Blameless [⟨c, answer⟩] failure) :
    Segment calls commands w [⟨c, answer⟩] failure w := by
  have hears (v : View) : ∃ messages : List Message,
      v.along [⟨c, answer⟩] = ⟨v.line, v.events ++ messages.map .took⟩ := by
    obtain ⟨messages, heard⟩ := told v.line
    exact ⟨messages, congrArg v.hear heard⟩
  refine ⟨rfl, rfl, by simp [allowed], fun v ready => ?_, fun _ v _ touch => ?_, blameless⟩
  · obtain ⟨messages, same⟩ := hears v
    rw [same]
    refine ⟨ready, _, rfl, fun x member => ?_⟩
    obtain ⟨m, _, rfl⟩ := List.mem_map.mp member
    rfl
  · obtain ⟨messages, same⟩ := hears v
    rw [same]
    exact touch.mono (by simp)

/-- A call of which nothing is heard and which tells of no failure. -/
theorem ask_part {c : RunCall} (allowed : calls c)
    (unheard : ∀ line answer, Line.hear line c answer = (line, []))
    (calm : ∀ answer, c.isAlarming answer = false) : Part calls commands (ask c) := by
  intro w trace r w' runs
  obtain ⟨answer, rfl, rfl, rfl⟩ := Task.runs_ask.mp runs
  refine asked_segment allowed (fun line => ⟨[], unheard line answer⟩) fun move member => ?_
  obtain rfl := List.mem_singleton.mp member
  exact calm answer

theorem runs_ask_bind {c : RunCall} {f : c.Answer → RunM α} {r : Except WorkerError α}
    (runs : Task.Runs (ask c >>= f) w trace r w') :
    ∃ answer later, trace = ⟨c, answer⟩ :: later ∧ Task.Runs (f answer) w later r w' :=
  Program.runs_call.mp runs

theorem ask_bind_part {c : RunCall} {f : c.Answer → RunM α}
    (next : ∀ answer w trace r w', Task.Runs (f answer) w trace r w' →
      Segment calls commands w (⟨c, answer⟩ :: trace) (failure? r) w') : Part calls commands (ask c >>= f) := by
  intro w trace r w' runs
  obtain ⟨answer, later, rfl, goesOn⟩ := runs_ask_bind runs
  exact next answer w later r w' goesOn

theorem pause_part : Part RunCall.isLocal commands pause :=
  .get fun _ => ask_part rfl (fun _ _ => rfl) fun _ => rfl

theorem poll_part : Part RunCall.isLocal [.status] (onBoard (Client.poll false)) :=
  asking_part (by decide) rfl fun _ _ ready => Client.poll_spec Law.free_isLenient ready

theorem reset_part : Part RunCall.isLocal [.reset] (onBoard Client.reset) :=
  asking_part (by decide) rfl fun _ _ ready => Client.reset_spec Law.free_isLenient ready

theorem stop_part : Part RunCall.isLocal [.stop] (onBoard Client.stop) :=
  asking_part (by decide) rfl fun _ _ ready => Client.stop_spec Law.free_isLenient ready

theorem start_part (cycles : Word) : Part RunCall.isLocal [.start] (onBoard (Client.start cycles)) :=
  asking_part (by simp [Frame.command]) rfl fun _ _ ready =>
    Client.start_spec Law.free_isLenient ready cycles trivial

theorem fail_part {fault : RunFault} (own : fault ≠ .aborted) : Part calls commands (fail fault : RunM α) :=
  .get fun w => .throw (by cases fault <;> first | rfl | exact absurd rfl own)

theorem connectAndReset_part : Part RunCall.isLocal [.openBoard, .reset] connectAndReset := by
  have resetting : Part RunCall.isLocal [.openBoard, .reset] (onBoard Client.reset) :=
    reset_part.weaken (fun _ => id) (by simp)
  have opening : Part RunCall.isLocal [.openBoard, .reset] (onBoard Client.openBoard) :=
    asking_part (by decide) rfl fun _ _ ready => Client.openBoard_spec Law.free_isLenient ready
  unfold connectAndReset
  refine .get fun w => ?_
  dsimp only
  split
  · refine .bind (ask_part rfl (fun _ _ => rfl) fun _ => rfl) fun answer => ?_
    split
    · exact .throw rfl
    · exact .bind (onBoard_part (Client.attach_talks _)) fun _ => .bind opening fun _ => resetting
  · exact resetting

theorem awaitLock_part (polls : Nat) : Part RunCall.isLocal [.status] (awaitLock polls) := by
  induction polls with
  | zero => exact fail_part (by decide)
  | succ polls ih =>
    unfold awaitLock
    refine .bind poll_part fun status => ?_
    split
    · exact .pure
    · exact .bind pause_part fun _ => ih

theorem lockClock_part :
    Part RunCall.isLocal [.getRegister, .setRegister, .status] lockClock := by
  unfold lockClock
  refine .bind (asking_part (by simp [Frame.command]) rfl fun _ _ ready =>
    Client.getRegister_spec Law.free_isLenient ready _) fun control => ?_
  refine .bind (asking_part (by simp [Frame.command]) rfl fun _ _ ready =>
    Client.setRegister_spec Law.free_isLenient ready _ _) fun _ => ?_
  exact (awaitLock_part lockPolls).weaken (fun _ => id) (by simp)

theorem routes_error {selection : Option Selection} {direction : Direction} {e : WorkerError}
    (failed : Stream.routes selection direction = .error e) : e.distance = 0 := by
  unfold Stream.routes at failed
  split at failed
  · cases failed
  · split at failed
    · cases failed
    · rw [← Except.error.inj failed]
      rfl

theorem runningConfig_error {s : Stream} {e : WorkerError} (failed : s.runningConfig = .error e) :
    e.distance = 0 := by
  unfold Stream.runningConfig at failed
  simp only [bind, Except.bind, pure, Except.pure] at failed
  split at failed
  · rw [← Except.error.inj failed]
    rfl
  · split at failed
    · rename_i e' inputs
      rw [← Except.error.inj failed]
      exact routes_error inputs
    · split at failed
      · rename_i e' outputs
        rw [← Except.error.inj failed]
        exact routes_error outputs
      · cases failed

/-- The board is configured for a stream. -/
def configureFor (s : Stream) : RunM ConfigFrame := do
  let config ← (s.runningConfig : Except WorkerError ConfigFrame)
  modify fun w => { w with client := { w.client with policy := s.errorPolicy } }
  onBoard (Client.configure config)

theorem upload_eq (s : Stream) : upload s = (do
    let applied ← configureFor s
    onBoard (Client.write s.bytes)
    return applied) := by
  simp only [upload, configureFor, bind_assoc]

theorem configureFor_part (s : Stream) : Part RunCall.isLocal [.config] (configureFor s) := by
  refine .result (fun e => runningConfig_error) fun config w trace r w' runs => ?_
  have asking : Part RunCall.isLocal [.config] (onBoard (Client.configure config)) :=
    asking_part (by simp [Frame.command]) rfl fun _ _ ready =>
      Client.configure_spec Law.free_isLenient ready config
  exact (asking { w with client := { w.client with policy := s.errorPolicy } } trace r w' runs).of_start
    rfl rfl rfl rfl

theorem write_part (s : Stream) : Part RunCall.isLocal [.write] (onBoard (Client.write s.bytes)) :=
  onBoard_part (Client.write_talks Law.free_isLenient s.bytes)

theorem upload_part (s : Stream) : Part RunCall.isLocal [.config, .write] (upload s) := by
  rw [upload_eq]
  exact .bind ((configureFor_part s).weaken (fun _ => id) (by simp)) fun _ =>
    .bind ((write_part s).weaken (fun _ => id) (by simp)) fun _ => .pure

/-- A failure that a mailbox tells of is one of a peer, or one's own. -/
theorem blameless_barrier {c : RunCall} {answer : c.Answer} {e : BarrierError}
    (alarming : c.isAlarming answer = reportsFailure (.error e)) :
    Blameless [⟨c, answer⟩] (some (.barrier e)) := by
  cases e with
  | peerFailed peer event => exact .inl ⟨_, List.mem_singleton_self _, alarming⟩
  | timeout _ _ | counterMismatch _ _ _ | bus _ => exact .inr rfl

/-- What a mailbox has answered is taken, or nothing is. -/
theorem hear_taken (line : Line) (answer : Option (Except BarrierError Message)) :
    ∃ messages : List Message, (line, Line.taken answer) = (line, messages.map .took) := by
  unfold Line.taken
  split
  · rename_i message
    exact ⟨[message], rfl⟩
  · exact ⟨[], rfl⟩

theorem wait_part (peer event : String) (counter : Word) :
    Part RunCall.isSilent [] (wait peer event counter) := by
  unfold wait
  refine .get fun w => ask_bind_part fun (answer : Except BarrierError Message) w trace r w' runs => ?_
  cases answer with
  | ok message =>
    obtain ⟨rfl, rfl, rfl⟩ := Task.runs_pure.mp runs
    refine asked_segment rfl (fun line => hear_taken line _) fun move member => ?_
    obtain rfl := List.mem_singleton.mp member
    rfl
  | error e =>
    obtain ⟨rfl, rfl, rfl⟩ := Task.runs_throw.mp runs
    exact asked_segment rfl (fun line => hear_taken line _) (blameless_barrier rfl)

theorem collectStopped_part (peers : List String) (counter : Word) (taken : List Message) :
    Part RunCall.isSilent [] (collectStopped peers counter taken) := by
  induction peers generalizing taken with
  | nil => exact .pure
  | cons peer rest ih =>
    refine .bind ?_ ih
    dsimp only
    split
    · exact .pure
    · refine .get fun w => ask_bind_part fun answer w trace r w' runs => ?_
      match (answer : Option (Except BarrierError Message)), runs with
      | some (.error e), runs =>
        obtain ⟨rfl, rfl, rfl⟩ := Task.runs_throw.mp runs
        exact asked_segment rfl (fun line => hear_taken line _) (blameless_barrier rfl)
      | none, runs | some (.ok message), runs =>
        obtain ⟨rfl, rfl, rfl⟩ := Task.runs_pure.mp runs
        refine asked_segment rfl (fun line => hear_taken line _) fun move member => ?_
        obtain rfl := List.mem_singleton.mp member
        rfl

theorem checkAborted_part : Part RunCall.isSilent [] checkAborted := by
  refine ask_bind_part fun (answer : Bool) w trace r w' runs => ?_
  cases answer with
  | false =>
    obtain ⟨rfl, rfl, rfl⟩ := Task.runs_pure.mp runs
    refine asked_segment rfl (fun line => ⟨[], rfl⟩) fun move member => ?_
    obtain rfl := List.mem_singleton.mp member
    rfl
  | true =>
    obtain ⟨rfl, rfl, rfl⟩ := Task.runs_throw.mp runs
    exact asked_segment rfl (fun line => ⟨[], rfl⟩) (.inl ⟨_, List.mem_singleton_self _, rfl⟩)

theorem checkLimit_part (begun : Nat) (limit : Option Nat) :
    Part RunCall.isLocal commands (checkLimit begun limit) := by
  unfold checkLimit
  split
  · refine .bind (ask_part rfl (fun _ _ => rfl) fun _ => rfl) fun now => ?_
    split
    · exact fail_part (by simp)
    · exact .pure
  · exact .pure

theorem awaitEnd_part (begun : Nat) (limit : Option Nat) (peers : List String) (counter : Word)
    (polls : Nat) (clockLost : Bool) (taken : List Message) :
    Part RunCall.isSilent [.status] (awaitEnd begun limit peers counter polls clockLost taken) := by
  induction polls generalizing clockLost taken with
  | zero => exact ask_bind_part fun (answer : Empty) => answer.elim
  | succ polls ih =>
    unfold awaitEnd
    refine .bind (checkAborted_part.weaken (fun _ => id) (by simp)) fun _ => ?_
    refine .bind ((collectStopped_part peers counter taken).weaken (fun _ => id) (by simp)) fun taken => ?_
    refine .bind ((checkLimit_part begun limit).silent (List.Subset.refl _)) fun _ => ?_
    refine .bind (poll_part.silent (by simp)) fun status => .get fun w => ?_
    dsimp only
    split
    · exact .pure
    · exact fail_part (by simp)
    · exact .bind (pause_part.silent (List.Subset.refl _)) fun _ => ih _ _

theorem waitForEnd_part (polls : Nat) (limit : Option Nat) (peers : List String) (counter : Word) :
    Part RunCall.isSilent [.status] (waitForEnd polls limit peers counter) :=
  .bind (ask_part rfl (fun _ _ => rfl) fun _ => rfl) fun begun =>
    awaitEnd_part begun limit peers counter polls false []

theorem verified_part (s : Stream) (applied : ConfigFrame) (status : StatusFrame) :
    Part calls commands (verified s applied status) := by
  unfold verified
  split
  · exact .pure
  · rename_i fault failed
    refine fail_part fun aborted => ?_
    rw [aborted, verify] at failed
    split at failed
    · cases failed
    · split at failed <;> cases failed

/-- A secondary's way to a board with its stream. -/
def approach (primary : String) (s : Stream) (counter : Word) : RunM ConfigFrame := do
  let _ ← wait primary Event.start counter
  connectAndReset
  lockClock
  upload s

theorem joinStart_eq (primary : String) (s : Stream) (counter : Word) : joinStart primary s counter = (do
    let applied ← approach primary s counter
    onBoard (Client.start applied.cycles)
    return applied) := by
  simp only [joinStart, approach, bind_assoc]

theorem approach_part (primary : String) (s : Stream) (counter : Word) :
    Part RunCall.isSilent [.openBoard, .reset, .getRegister, .setRegister, .status, .config, .write]
      (approach primary s counter) := by
  refine .bind ((wait_part primary Event.start counter).weaken (fun _ => id) (by simp)) fun _ => ?_
  refine .bind (connectAndReset_part.silent (by simp)) fun _ => ?_
  exact .bind (lockClock_part.silent (by simp)) fun _ => (upload_part s).silent (by simp)

theorem joinStart_part (primary : String) (s : Stream) (counter : Word) :
    Part RunCall.isSilent [.openBoard, .reset, .getRegister, .setRegister, .status, .config, .write, .start]
      (joinStart primary s counter) := by
  rw [joinStart_eq]
  exact .bind ((approach_part primary s counter).weaken (fun _ => id) (by simp)) fun applied =>
    .bind ((start_part applied.cycles).silent (by simp)) fun _ => .pure

theorem awaitComplete_part (polls : Nat) (primary : String) (s : Stream) (base : Word)
    (applied : ConfigFrame) :
    Part RunCall.isSilent [.status] (awaitComplete polls primary s base applied) :=
  .get fun _ => .bind (waitForEnd_part polls _ _ _) fun ending =>
    .bind (verified_part s applied ending.status) fun _ => .get fun _ => .pure

theorem leaveClock_part (applied : ConfigFrame) :
    Part RunCall.isLocal [.setRegister, .stop] (leaveClock applied) :=
  .bind (asking_part (by simp [Frame.command]) rfl fun _ _ ready =>
    Client.setRegister_spec Law.free_isLenient ready _ _) fun _ =>
      stop_part.weaken (fun _ => id) (by simp)

/-- Errors of the board are one's own and may be passed over. -/
theorem attempt_part {p : RunM α} (part : Part RunCall.isLocal commands p) :
    Part RunCall.isLocal commands (attempt p) := by
  intro w trace r w' runs
  obtain ⟨result, rfl, ran⟩ := runs_attempt.mp runs
  have segment := part w trace result w' ran
  exact { segment with blameless := .of_local segment.calls fun _ absent => by cases absent }

theorem abortBoard_part :
    Part RunCall.isLocal [.stop, .close, .reset, .status] abortBoard := by
  have ignoring {p : RunM Unit} (part : Part RunCall.isLocal [.stop, .close, .reset, .status] p) :
      Part RunCall.isLocal [.stop, .close, .reset, .status] (ignoringErrors p) :=
    .bind (attempt_part part) fun _ => .pure
  unfold abortBoard
  refine .get fun w => ?_
  split
  · exact .pure
  · split
    · exact (onBoard_part (Client.abort_talks Law.free_isLenient)).weaken (fun _ => id) (by simp)
    · refine .bind (ignoring (stop_part.weaken (fun _ => id) (by simp))) fun _ => ignoring ?_
      refine .bind (reset_part.weaken (fun _ => id) (by simp)) fun _ => ?_
      exact .bind (poll_part.weaken (fun _ => id) (by simp)) fun _ => .pure

theorem gatherNext_runs {counter : Word} {peer : String} {state : List String × Option WorkerError}
    {r : Except WorkerError (List String × Option WorkerError)}
    (runs : Task.Runs (gatherNext counter state peer) w trace r w') : ∃ warned failure,
      r = .ok (warned, state.2.or failure) ∧ Segment RunCall.isSilent [] w trace failure w' := by
  unfold gatherNext at runs
  obtain ⟨first, _, waited, mid, rfl, ran, ended⟩ := runs_attempt_bind runs
  have segment := wait_part _ _ _ _ _ _ _ ran
  cases waited with
  | ok message =>
    obtain ⟨rfl, rfl, rfl⟩ := Task.runs_pure.mp ended
    rw [List.append_nil]
    exact ⟨_, none, by rw [Option.or_none], segment⟩
  | error e =>
    obtain ⟨rfl, rfl, rfl⟩ := Task.runs_pure.mp ended
    rw [List.append_nil]
    refine ⟨state.1, some e, ?_, segment⟩
    cases failed : state.2 <;> rfl

/-- The last messages, one after the other: the result has the first error. -/
theorem gather_runs {counter : Word} {peers : List String} {state : List String × Option WorkerError}
    {r : Except WorkerError (List String × Option WorkerError)}
    (runs : Task.Runs (peers.foldlM (gatherNext counter) state) w trace r w') : ∃ warned failure,
      r = .ok (warned, state.2.or failure) ∧ Segment RunCall.isSilent [] w trace failure w' := by
  induction peers generalizing state w trace with
  | nil =>
    obtain ⟨rfl, rfl, rfl⟩ := Task.runs_pure.mp runs
    exact ⟨state.1, none, by simp, .nothing fun _ absent => by cases absent⟩
  | cons peer rest ih =>
    rw [List.foldlM_cons] at runs
    rcases Task.runs_bind.mp runs with ⟨first, second, state', mid, rfl, ran, goesOn⟩ | ⟨e, _, ran⟩
    · obtain ⟨warned, failure, same, before⟩ := gatherNext_runs ran
      obtain rfl := Except.ok.inj same
      obtain ⟨warned', failure', rfl, after⟩ := ih goesOn
      exact ⟨warned', failure.or failure', by rw [Option.or_assoc], before.append after⟩
    · obtain ⟨_, _, impossible, _⟩ := gatherNext_runs ran
      cases impossible

theorem gatherStopped_runs {counter : Word} {peers : List String} {taken : List Message}
    {r : Except WorkerError (List String × Option WorkerError)}
    (runs : Task.Runs (gatherStopped peers counter taken) w trace r w') : ∃ warned failure,
      r = .ok (warned, failure) ∧ Segment RunCall.isSilent [] w trace failure w' := by
  obtain ⟨warned, failure, same, segment⟩ := gather_runs runs
  exact ⟨warned, failure, by simpa using same, segment⟩

end Worker

end Sequencer
