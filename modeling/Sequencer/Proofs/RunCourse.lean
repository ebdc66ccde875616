import Mathlib.Data.List.Forall2
import Sequencer.Proofs.RunParts

/-!
The course of a worker's run: the parts that follow each other and the messages that are posted between
them, for a run that gets through and for one that fails.
-/
namespace Sequencer

/-- The posting of a message, with what the bus says to it. -/
def Move.posting (recipient : String) (message : Message) (told : Except BarrierError Unit) : Move runInterface :=
  ⟨.post recipient message, told⟩

/-- The bus has taken every message. -/
def Delivered (trace : Trace runInterface) : Prop :=
  ∀ recipient message e, .posting recipient message (.error e) ∉ trace

/-- A message that the bus has refused. -/
def Move.isRefused : Move runInterface → Bool
  | ⟨.post _ _, .error _⟩ => true
  | _ => false

theorem delivered_iff {trace : Trace runInterface} :
    Delivered trace ↔ ∀ move ∈ trace, move.isRefused = false := by
  constructor
  · intro delivered move member
    obtain ⟨c, answer⟩ := move
    cases c with
    | post recipient message =>
      cases answer with
      | ok _ => rfl
      | error e => exact absurd member (delivered recipient message e)
    | _ => rfl
  · intro taken recipient message e member
    cases taken _ member

instance (trace : Trace runInterface) : Decidable (Delivered trace) := decidable_of_iff' _ delivered_iff

/-- The same message for everyone, each taken by the bus. -/
def announcement (peers : List String) (message : Message) : Trace runInterface :=
  peers.map fun peer => .posting peer message (.ok ())

/-- The same message is posted to everyone, whatever the bus says. -/
def Tells (peers : List String) (message : Message) (trace : Trace runInterface) : Prop :=
  List.Forall₂ (fun peer move => ∃ told, move = .posting peer message told) peers trace

section
variable {peers : List String} {message : Message} {recipient : String} {told : Except BarrierError Unit}
  {first second trace : Trace runInterface} {kind : RunEvent → Bool}

theorem Delivered.mono (delivered : Delivered second) (part : first ⊆ second) : Delivered first :=
  fun recipient message e member => delivered recipient message e (part member)

theorem Delivered.taken (delivered : Delivered trace) (posted : .posting recipient message told ∈ trace) :
    told = .ok () := by
  cases told with
  | ok _ => rfl
  | error e => exact absurd posted (delivered recipient message e)

/-- The last message was taken as well. -/
theorem Delivered.last (delivered : Delivered (first ++ [.posting recipient message told])) : told = .ok () :=
  delivered.taken (List.mem_append_right _ (List.mem_singleton_self _))

theorem tells_announcement : Tells peers message (announcement peers message) :=
  List.forall₂_map_right_iff.mpr (List.forall₂_same.mpr fun _ _ => ⟨.ok (), rfl⟩)

theorem Tells.of_nobody (tells : Tells [] message trace) : trace = [] := List.forall₂_nil_left_iff.mp tells

theorem Tells.along (tells : Tells peers message trace) (v : View) :
    v.along trace = ⟨v.line, v.events ++ peers.map fun peer => .posted peer message⟩ := by
  induction tells generalizing v with
  | nil => simp
  | @cons peer _ rest _ posts _ ih =>
    obtain ⟨told, rfl⟩ := posts
    have later := ih ⟨v.line, v.events ++ [.posted peer message]⟩
    rw [List.append_assoc] at later
    exact later

/-- Posting is no request. -/
theorem Tells.adds (tells : Tells peers message trace) (posts : ∀ peer, kind (.posted peer message)) :
    Adds kind trace := by
  intro v ready
  rw [tells.along]
  refine ⟨ready, _, rfl, fun x member => ?_⟩
  obtain ⟨peer, _, rfl⟩ := List.mem_map.mp member
  exact posts peer

theorem posting_adds (posts : kind (.posted recipient message)) : Adds kind [.posting recipient message told] :=
  fun _ ready => ⟨ready, [.posted recipient message], rfl, by simpa using posts⟩

end

namespace Worker
variable {w w' : Worker} {trace : Trace runInterface} {peers : List String}

theorem posting_segment (recipient : String) (message : Message) (told : Except BarrierError Unit) :
    Segment (fun _ => true) [] w [.posting recipient message told] none w where
  fixed := rfl
  settings := rfl
  calls := by simp
  grows := posting_adds rfl
  touch _ v _ touch := by
    have unrequested : ∀ request, .requested request ∉ [RunEvent.posted recipient message] := by simp
    exact touch.mono unrequested
  blameless move member := by
    rw [List.mem_singleton.mp member]
    rfl

theorem runs_ignoringErrors {p : RunM Unit} {r : Except WorkerError Unit}
    (runs : Task.Runs (ignoringErrors p) w trace r w') :
    r = .ok () ∧ ∃ result, Task.Runs p w trace result w' := by
  obtain ⟨first, _, result, _, rfl, ran, ended⟩ := runs_attempt_bind runs
  obtain ⟨rfl, rfl, rfl⟩ := Task.runs_pure.mp ended
  rw [List.append_nil]
  exact ⟨rfl, result, ran⟩

section
variable {β : Type} {f : Unit → RunM β} {peer event : String} {counter : Word} {ok warn : Bool}
  {r : Except WorkerError β}

theorem runs_post {r : Except WorkerError Unit} : Task.Runs (post peer event counter ok warn) w trace r w' ↔
    ∃ told, trace = [.posting peer ⟨event, w.name, counter, ok, warn⟩ told] ∧ r = told.mapError .barrier ∧
      w' = w := by
  constructor
  · intro runs
    obtain ⟨told, later, rfl, ended⟩ := runs_ask_bind (Task.runs_get.mp runs)
    refine ⟨told, ?_⟩
    cases told with
    | ok _ =>
      obtain ⟨rfl, rfl, rfl⟩ := Task.runs_pure.mp ended
      exact ⟨rfl, rfl, rfl⟩
    | error e =>
      obtain ⟨rfl, rfl, rfl⟩ := Task.runs_throw.mp ended
      exact ⟨rfl, rfl, rfl⟩
  · rintro ⟨told, rfl, rfl, rfl⟩
    refine Task.runs_get.mpr (Program.runs_call.mpr ⟨told, [], rfl, ?_⟩)
    cases told with
    | ok _ => exact Task.runs_pure.mpr ⟨rfl, rfl, rfl⟩
    | error e => exact Task.runs_throw.mpr ⟨rfl, rfl, rfl⟩

/-- What is posted is delivered, or it is the last that a part does. -/
theorem runs_post_bind : Task.Runs (post peer event counter ok warn >>= f) w trace r w' ↔
    (∃ later, trace = .posting peer ⟨event, w.name, counter, ok, warn⟩ (.ok ()) :: later ∧
      Task.Runs (f ()) w later r w') ∨
    ∃ e, trace = [.posting peer ⟨event, w.name, counter, ok, warn⟩ (.error e)] ∧ r = .error (.barrier e) ∧
      w' = w := by
  refine Task.runs_bind.trans (or_congr ?_ ?_)
  · constructor
    · rintro ⟨_, later, _, _, rfl, posted, goesOn⟩
      obtain ⟨_ | _, rfl, same, rfl⟩ := runs_post.mp posted
      · cases same
      · exact ⟨later, rfl, goesOn⟩
    · rintro ⟨later, rfl, goesOn⟩
      exact ⟨[_], later, (), w, rfl, runs_post.mpr ⟨.ok (), rfl, rfl, rfl⟩, goesOn⟩
  · constructor
    · rintro ⟨_, rfl, posted⟩
      obtain ⟨e | _, rfl, same, rfl⟩ := runs_post.mp posted
      · exact ⟨e, rfl, congrArg Except.error (Except.error.inj same), rfl⟩
      · cases same
    · rintro ⟨e, rfl, rfl, rfl⟩
      exact ⟨_, rfl, runs_post.mpr ⟨.error e, rfl, rfl, rfl⟩⟩

theorem forM_cons_bind {p : String → RunM Unit} {rest : List String} :
    (peer :: rest).forM p >>= f = p peer >>= fun _ => rest.forM p >>= f := by
  rw [← bind_assoc]
  rfl

/-- Everyone is told, or the bus refuses a message and nobody after that is told. -/
theorem runs_postAll (runs : Task.Runs ((peers.forM fun peer => post peer event counter ok warn) >>= f) w trace r w') :
    (∃ later, trace = announcement peers ⟨event, w.name, counter, ok, warn⟩ ++ later ∧
      Task.Runs (f ()) w later r w') ∨
    ∃ before peer after e, peers = before ++ peer :: after ∧
      trace = announcement before ⟨event, w.name, counter, ok, warn⟩ ++
        [.posting peer ⟨event, w.name, counter, ok, warn⟩ (.error e)] ∧ r = .error (.barrier e) ∧ w' = w := by
  induction peers generalizing trace with
  | nil => exact .inl ⟨trace, rfl, runs⟩
  | cons peer rest ih =>
    rw [forM_cons_bind] at runs
    rcases runs_post_bind.mp runs with ⟨_, rfl, goesOn⟩ | ⟨e, rfl, rfl, rfl⟩
    · rcases ih goesOn with ⟨later, rfl, ended⟩ | ⟨before, other, after, e, rfl, rfl, rfl, rfl⟩
      · exact .inl ⟨later, rfl, ended⟩
      · exact .inr ⟨peer :: before, other, after, e, rfl, rfl, rfl, rfl⟩
    · exact .inr ⟨[], peer, rest, e, rfl, rfl, rfl, rfl⟩

/-- If everyone has been told, the rest goes on from there. -/
theorem runs_announced {onward l : Trace runInterface}
    (runs : Task.Runs ((peers.forM fun peer => post peer event counter ok warn) >>= f) w trace r w')
    (agree : trace ++ l = announcement peers ⟨event, w.name, counter, ok, warn⟩ ++ onward) :
    ∃ later, later ++ l = onward ∧ Task.Runs (f ()) w later r w' := by
  rcases runs_postAll runs with ⟨later, rfl, ended⟩ | ⟨before, peer, after, e, rfl, rfl, _, _⟩
  · rw [List.append_assoc] at agree
    exact ⟨later, List.append_cancel_left agree, ended⟩
  · rw [announcement, announcement, List.map_append, List.append_assoc, List.append_assoc] at agree
    cases (List.cons.inj (List.append_cancel_left agree)).1

theorem postAll_runs (runs : Task.Runs (f ()) w trace r w') :
    Task.Runs ((peers.forM fun peer => post peer event counter ok warn) >>= f) w
      (announcement peers ⟨event, w.name, counter, ok, warn⟩ ++ trace) r w' := by
  induction peers with
  | nil => exact runs
  | cons peer rest ih =>
    rw [forM_cons_bind]
    exact runs_post_bind.mpr (.inl ⟨_, rfl, ih⟩)

/-- What the bus refuses is passed over when everyone is to be told. -/
theorem runs_tellAll
    (runs : Task.Runs ((peers.forM fun peer => ignoringErrors (post peer event counter ok warn)) >>= f) w trace r w') :
    ∃ telling later, trace = telling ++ later ∧ Tells peers ⟨event, w.name, counter, ok, warn⟩ telling ∧
      Task.Runs (f ()) w later r w' := by
  induction peers generalizing trace with
  | nil => exact ⟨[], trace, rfl, .nil, runs⟩
  | cons peer rest ih =>
    rw [forM_cons_bind] at runs
    rcases Task.runs_bind.mp runs with ⟨_, _, _, _, rfl, posted, goesOn⟩ | ⟨e, _, posted⟩
    · obtain ⟨_, _, posted⟩ := runs_ignoringErrors posted
      obtain ⟨told, rfl, _, rfl⟩ := runs_post.mp posted
      obtain ⟨telling, later, rfl, tells, ended⟩ := ih goesOn
      exact ⟨_, later, rfl, .cons ⟨told, rfl⟩ tells, ended⟩
    · cases (runs_ignoringErrors posted).1

theorem tellAll_runs (runs : Task.Runs (f ()) w trace r w') :
    Task.Runs ((peers.forM fun peer => ignoringErrors (post peer event counter ok warn)) >>= f) w
      (announcement peers ⟨event, w.name, counter, ok, warn⟩ ++ trace) r w' := by
  induction peers with
  | nil => exact runs
  | cons peer rest ih =>
    rw [forM_cons_bind]
    have posted : Task.Runs (ignoringErrors (post peer event counter ok warn)) w
        [.posting peer ⟨event, w.name, counter, ok, warn⟩ (.ok ())] (.ok ()) w :=
      Task.runs_bind.mpr (.inl ⟨_, [], _, w, (List.append_nil _).symm,
        runs_attempt.mpr ⟨_, rfl, runs_post.mpr ⟨.ok (), rfl, rfl, rfl⟩⟩, Task.runs_pure.mpr ⟨rfl, rfl, rfl⟩⟩)
    exact Task.runs_bind.mpr (.inl ⟨[_], _, (), w, rfl, posted, ih⟩)

end

/-- What a primary does before it announces anything. -/
def prepare (s : Stream) : RunM ConfigFrame := do
  connectAndReset
  upload s

/-- The end of a primary's run, once its board has ended. -/
def conclude (s : Stream) (base : Word) (secondaries : List String) (applied : ConfigFrame)
    (ending : Ending) : RunM Report := do
  let (warned, failure) ← gatherStopped secondaries (base + 3) ending.taken
  let stopped ← attempt (onBoard Client.stop)
  if let some e := failure then throw e
  let _ ← (stopped : Except WorkerError Unit)
  verified s applied ending.status
  return (← get).report base applied ending warned

/-- What a primary does after it has announced that it is ready. -/
def lead (polls : Nat) (s : Stream) (base : Word) (secondaries : List String) (applied : ConfigFrame) :
    RunM Report := do
  secondaries.forM fun peer => do
    let _ ← wait peer Event.started (base + 2)
  onBoard (Client.start applied.cycles)
  let limit := runLimit (← get).settings s applied.cycles
  let ending ← waitForEnd polls limit secondaries (base + 3)
  conclude s base secondaries applied ending

theorem runPrimary_eq (polls : Nat) (s : Stream) (base : Word) : runPrimary polls s base = (do
    let secondaries := (← get).config.peers
    let prepared ← attempt (prepare s)
    secondaries.forM fun peer => post peer Event.start (base + 1) prepared.toBool false
    let applied ← (prepared : Except WorkerError ConfigFrame)
    lead polls s base secondaries applied) := rfl

theorem conclude_part (s : Stream) (base : Word) (applied : ConfigFrame) (ending : Ending) :
    Part RunCall.isSilent [.stop] (conclude s base peers applied ending) := by
  intro w trace r w' runs
  rcases Task.runs_bind.mp runs with ⟨first, _, _, w₁, rfl, gathered, stopping⟩ | ⟨e, _, gathered⟩
  · obtain ⟨warned, failure, same, segment⟩ := gatherStopped_runs gathered
    obtain rfl := Except.ok.inj same
    obtain ⟨second, last, stopped, w₂, rfl, ran, ended⟩ := runs_attempt_bind stopping
    have stop := attempt_part stop_part w₁ second _ w₂ (runs_attempt.mpr ⟨stopped, rfl, ran⟩)
    have before := (segment.weaken (fun _ => id) (by simp)).append
      (stop.weaken (fun _ => RunCall.isSilent_of_isLocal) (List.Subset.refl _))
    rw [← List.append_assoc]
    cases failure with
    | some e =>
      obtain ⟨rfl, rfl, rfl⟩ : last = [] ∧ r = .error e ∧ w' = w₂ := Task.runs_throw.mp ended
      rw [List.append_nil]
      exact before
    | none =>
      have own : ∀ e, stopped = .error e → e.distance = 0 := by
        rintro e rfl
        exact (stop_part w₁ second _ w₂ ran).own
      have after : Part RunCall.isSilent [.stop] (do
          let _ ← (stopped : Except WorkerError Unit)
          verified s applied ending.status
          return (← get).report base applied ending warned) :=
        .result own fun _ => .bind (verified_part s applied ending.status) fun _ => .get fun _ => .pure
      exact before.append (after w₂ last r w' ended)
  · obtain ⟨_, _, impossible, _⟩ := gatherStopped_runs gathered
    cases impossible

theorem lead_part (polls : Nat) (s : Stream) (base : Word) (applied : ConfigFrame) :
    Part RunCall.isSilent [.start, .status, .stop] (lead polls s base peers applied) := by
  have awaiting : Part RunCall.isSilent [.start, .status, .stop]
      (peers.forM fun peer => do let _ ← wait peer Event.started (base + 2)) := by
    induction peers with
    | nil => exact .pure
    | cons peer rest ih =>
      exact .bind (.bind ((wait_part _ _ _).weaken (fun _ => id) (by simp)) fun _ => .pure) fun _ => ih
  refine .bind awaiting fun _ => .bind ((start_part _).silent (by simp)) fun _ => .get fun w => ?_
  refine .bind ((waitForEnd_part _ _ _ _).weaken (fun _ => id) (by simp)) fun ending => ?_
  exact (conclude_part s base applied ending).weaken (fun _ => id) (by simp)

/-- How the part of a primary in a run goes: it prepares, announces, and leads if it is ready. -/
inductive PrimaryCourse (peers : List String) (s : Stream) (base : Word) (w : Worker) :
    Trace runInterface → Except WorkerError Report → Worker → Prop where
  | unannounced {preparing : Trace runInterface} {prepared : Except WorkerError ConfigFrame}
      {before after : List String} {peer : String} {e : BarrierError} {w' : Worker}
      (ran : Task.Runs (prepare s) w preparing prepared w') (split : peers = before ++ peer :: after) :
      PrimaryCourse peers s base w
        (preparing ++ announcement before ⟨Event.start, w.name, base + 1, prepared.toBool, false⟩ ++
          [.posting peer ⟨Event.start, w.name, base + 1, prepared.toBool, false⟩ (.error e)])
        (.error (.barrier e)) w'
  | unprepared {preparing : Trace runInterface} {e : WorkerError} {w' : Worker}
      (prepared : Task.Runs (prepare s) w preparing (.error e) w') :
      PrimaryCourse peers s base w
        (preparing ++ announcement peers ⟨Event.start, w.name, base + 1, false, false⟩) (.error e) w'
  | led {preparing rest : Trace runInterface} {applied : ConfigFrame} {r : Except WorkerError Report}
      {mid w' : Worker} (prepared : Task.Runs (prepare s) w preparing (.ok applied) mid)
      (led : Segment RunCall.isSilent [.start, .status, .stop] mid rest (failure? r) w') :
      PrimaryCourse peers s base w
        (preparing ++ announcement peers ⟨Event.start, w.name, base + 1, true, false⟩ ++ rest) r w'

theorem prepare_part (s : Stream) :
    Part RunCall.isLocal [.openBoard, .reset, .config, .write] (prepare s) :=
  .bind (connectAndReset_part.weaken (fun _ => id) (by simp)) fun _ =>
    (upload_part s).weaken (fun _ => id) (by simp)

theorem runPrimary_course {polls : Nat} {s : Stream} {base : Word} {r : Except WorkerError Report}
    (runs : Task.Runs (runPrimary polls s base) w trace r w') :
    PrimaryCourse w.config.peers s base w trace r w' := by
  rw [runPrimary_eq] at runs
  obtain ⟨preparing, _, prepared, w₁, rfl, ran, announcing⟩ := runs_attempt_bind (Task.runs_get.mp runs)
  have name : w₁.name = w.name := congrArg (·.1.name) (prepare_part s w preparing _ w₁ ran).fixed
  rcases runs_postAll announcing with ⟨rest, rfl, leading⟩ | ⟨before, peer, after, e, split, rfl, rfl, rfl⟩
  · rw [name, ← List.append_assoc]
    rcases Task.runs_result.mp leading with ⟨applied, rfl, leading⟩ | ⟨e, rfl, rfl, rfl, rfl⟩
    · exact .led ran (lead_part polls s base applied _ _ _ _ leading)
    · rw [List.append_nil]
      exact .unprepared ran
  · rw [name, ← List.append_assoc]
    exact .unannounced ran split

/-- How the part of a secondary in a run goes: it joins, tells its primary, and if it has started it
sees its run to the end, leaves the clock and tells its primary again. If it cannot tell its primary how
it joined, that is the end. -/
inductive SecondaryCourse (polls : Nat) (primary : String) (s : Stream) (base : Word) (w : Worker) :
    Trace runInterface → Except WorkerError Report → Worker → Prop where
  | untold {joining : Trace runInterface} {started : Except WorkerError ConfigFrame} {e : BarrierError}
      {w' : Worker} (joined : Task.Runs (joinStart primary s (base + 1)) w joining started w') :
      SecondaryCourse polls primary s base w
        (joining ++ [.posting primary ⟨Event.started, w.name, base + 2, started.toBool, false⟩ (.error e)])
        (.error (.barrier e)) w'
  | unstarted {joining : Trace runInterface} {e : WorkerError} {w' : Worker}
      (joined : Task.Runs (joinStart primary s (base + 1)) w joining (.error e) w') :
      SecondaryCourse polls primary s base w
        (joining ++ [.posting primary ⟨Event.started, w.name, base + 2, false, false⟩ (.ok ())]) (.error e) w'
  | started {joining awaiting leaving : Trace runInterface} {applied : ConfigFrame}
      {result : Except WorkerError Report} {unlocked : Except WorkerError Unit} {told : Except BarrierError Unit}
      {w₁ w₂ w₃ : Worker}
      (joined : Task.Runs (joinStart primary s (base + 1)) w joining (.ok applied) w₁)
      (completed : Task.Runs (awaitComplete polls primary s base applied) w₁ awaiting result w₂)
      (left : Task.Runs (leaveClock applied) w₂ leaving unlocked w₃) :
      SecondaryCourse polls primary s base w
        (joining ++ .posting primary ⟨Event.started, w.name, base + 2, true, false⟩ (.ok ()) ::
          (awaiting ++ leaving ++ [.posting primary ⟨Event.stopped, w.name, base + 3,
            result.toBool && unlocked.toBool, clockLostIn result⟩ told]))
        (told.mapError .barrier >>= fun _ => unlocked >>= fun _ => result) w₃

/-- A secondary's part with the primary that it follows. -/
def follow (polls : Nat) (primary : String) (s : Stream) (base : Word) : RunM Report := do
  let started ← attempt (joinStart primary s (base + 1))
  post primary Event.started (base + 2) started.toBool false
  let applied ← (started : Except WorkerError ConfigFrame)
  let result ← attempt (awaitComplete polls primary s base applied)
  let unlocked ← attempt (leaveClock applied)
  post primary Event.stopped (base + 3) (result.toBool && unlocked.toBool) (clockLostIn result)
  let _ ← (unlocked : Except WorkerError Unit)
  (result : Except WorkerError Report)

theorem runSecondary_eq (polls : Nat) (s : Stream) (base : Word) : runSecondary polls s base = (do
    let w ← get
    match w.config.peers with
    | [] => invalid (.noPrimary w.name)
    | primary :: _ => follow polls primary s base) := rfl

theorem follow_course {polls : Nat} {primary : String} {s : Stream} {base : Word}
    {r : Except WorkerError Report} (runs : Task.Runs (follow polls primary s base) w trace r w') :
    SecondaryCourse polls primary s base w trace r w' := by
  obtain ⟨joining, _, started, w₁, rfl, joined, telling⟩ := runs_attempt_bind runs
  have name₁ : w₁.name = w.name := congrArg (·.1.name) (joinStart_part _ _ _ _ _ _ _ joined).fixed
  rcases runs_post_bind.mp telling with ⟨_, rfl, following⟩ | ⟨e, rfl, rfl, rfl⟩
  case inr =>
    rw [name₁]
    exact .untold joined
  rw [name₁]
  rcases Task.runs_result.mp following with ⟨applied, rfl, following⟩ | ⟨e, rfl, rfl, rfl, rfl⟩
  · obtain ⟨awaiting, _, result, w₂, rfl, completed, leave⟩ := runs_attempt_bind following
    have name₂ : w₂.name = w.name :=
      (congrArg (·.1.name) (awaitComplete_part _ _ _ _ _ _ _ _ _ completed).fixed).trans name₁
    obtain ⟨leaving, reported, unlocked, w₃, rfl, left, reporting⟩ := runs_attempt_bind leave
    have name₃ : w₃.name = w.name :=
      (congrArg (·.1.name) (leaveClock_part _ _ _ _ _ left).fixed).trans name₂
    obtain ⟨told, rfl, rfl, rfl⟩ : ∃ told, reported = [.posting primary ⟨Event.stopped, w₃.name, base + 3,
        result.toBool && unlocked.toBool, clockLostIn result⟩ told] ∧
        r = (told.mapError .barrier >>= fun _ => unlocked >>= fun _ => result) ∧ w' = w₃ := by
      rcases runs_post_bind.mp reporting with ⟨last, rfl, ended⟩ | ⟨e, rfl, rfl, rfl⟩
      · refine ⟨.ok (), ?_⟩
        rcases Task.runs_result.mp ended with ⟨_, rfl, tail⟩ | ⟨e, rfl, rfl, rfl, rfl⟩
        · obtain ⟨rfl, rfl, rfl⟩ := Task.runs_liftM.mp tail
          exact ⟨rfl, rfl, rfl⟩
        · exact ⟨rfl, rfl, rfl⟩
      · exact ⟨.error e, rfl, rfl, rfl⟩
    rw [name₃, ← List.append_assoc awaiting]
    exact .started joined completed left
  · exact .unstarted joined

theorem runSecondary_course {polls : Nat} {s : Stream} {base : Word} {r : Except WorkerError Report}
    {primary : String} {rest : List String} (leader : w.config.peers = primary :: rest)
    (runs : Task.Runs (runSecondary polls s base) w trace r w') :
    SecondaryCourse polls primary s base w trace r w' := by
  rw [runSecondary_eq] at runs
  replace runs := Task.runs_get.mp runs
  rw [leader] at runs
  exact follow_course runs

/-- A secondary that follows nobody does nothing. -/
theorem runSecondary_alone {polls : Nat} {s : Stream} {base : Word} {r : Except WorkerError Report}
    (alone : w.config.peers = []) (runs : Task.Runs (runSecondary polls s base) w trace r w') :
    trace = [] ∧ r = .error (.settings (.invalid (.noPrimary w.name))) ∧ w' = w := by
  rw [runSecondary_eq] at runs
  replace runs := Task.runs_get.mp runs
  rw [alone] at runs
  exact Task.runs_throw.mp runs

theorem abortBoard_ok {r : Except WorkerError Unit} (runs : Task.Runs abortBoard w trace r w') :
    r = .ok () := by
  unfold abortBoard at runs
  replace runs := Task.runs_get.mp runs
  split at runs
  · exact (Task.runs_pure.mp runs).2.1
  · split at runs
    · obtain ⟨_, _, ⟨rfl, _⟩, _, rfl⟩ :=
        onBoard_runs (v := {}) (Client.abort_spec Law.free_isLenient rfl) runs
      rfl
    · rcases Task.runs_bind.mp runs with ⟨_, _, _, _, _, _, resetting⟩ | ⟨e, _, stopping⟩
      · exact (runs_ignoringErrors resetting).1
      · obtain ⟨impossible, _⟩ := runs_ignoringErrors stopping
        cases impossible

/-- The part of a role in a run. -/
def assigned (polls : Nat) (s : Stream) (base : Word) : Role → RunM Report
  | .primary => runPrimary polls s base
  | .secondary => runSecondary polls s base

theorem assigned_fixed {polls : Nat} {s : Stream} {base : Word} {role : Role}
    {r : Except WorkerError Report} (runs : Task.Runs (assigned polls s base role) w trace r w') :
    w'.fixed = w.fixed ∧ w'.settings = w.settings := by
  cases role with
  | primary =>
    cases runPrimary_course runs with
    | unannounced prepared | unprepared prepared =>
      have before := prepare_part s _ _ _ _ prepared
      exact ⟨before.fixed, before.settings⟩
    | led prepared led =>
      have before := prepare_part s _ _ _ _ prepared
      exact ⟨led.fixed.trans before.fixed, led.settings.trans before.settings⟩
  | secondary =>
    cases leader : w.config.peers with
    | nil =>
      obtain ⟨_, _, rfl⟩ := runSecondary_alone leader runs
      exact ⟨rfl, rfl⟩
    | cons primary rest =>
      cases runSecondary_course leader runs with
      | untold joined | unstarted joined =>
        have before := joinStart_part _ _ _ _ _ _ _ joined
        exact ⟨before.fixed, before.settings⟩
      | started joined completed left =>
        have first := joinStart_part _ _ _ _ _ _ _ joined
        have second := awaitComplete_part _ _ _ _ _ _ _ _ _ completed
        have third := leaveClock_part _ _ _ _ _ left
        exact ⟨(third.fixed.trans second.fixed).trans first.fixed,
          (third.settings.trans second.settings).trans first.settings⟩

/-- What the part of a secondary in a run does when it follows nobody. -/
theorem assigned_alone {polls : Nat} {s : Stream} {base : Word} {r : Except WorkerError Report}
    (role : w.config.role = .secondary) (alone : w.config.peers = [])
    (runs : Task.Runs (assigned polls s base w.config.role) { w with counter := w.counter + 3 } trace r w') :
    trace = [] ∧ r = .error (.settings (.invalid (.noPrimary w.name))) ∧
      w' = { w with counter := w.counter + 3 } := by
  rw [role] at runs
  exact runSecondary_alone (w := { w with counter := w.counter + 3 }) alone runs

theorem assigned_follows {polls : Nat} {s : Stream} {base : Word} {r : Except WorkerError Report}
    {primary : String} {rest : List String} (role : w.config.role = .secondary)
    (leader : w.config.peers = primary :: rest)
    (runs : Task.Runs (assigned polls s base w.config.role) { w with counter := w.counter + 3 } trace r w') :
    SecondaryCourse polls primary s base { w with counter := w.counter + 3 } trace r w' := by
  rw [role] at runs
  exact runSecondary_course (w := { w with counter := w.counter + 3 }) leader runs

theorem assigned_runs_follow {polls : Nat} {primary : String} {rest : List String} {s : Stream} {base : Word}
    {r : Except WorkerError Report} (role : w.config.role = .secondary) (leader : w.config.peers = primary :: rest)
    (runs : Task.Runs (follow polls primary s base) { w with counter := w.counter + 3 } trace r w') :
    Task.Runs (assigned polls s base w.config.role) { w with counter := w.counter + 3 } trace r w' := by
  rw [role]
  change Task.Runs (runSecondary polls s base) _ _ _ _
  rw [runSecondary_eq]
  refine Task.runs_get.mpr ?_
  dsimp only
  rw [leader]
  exact runs

/-- The peers that are told when a run has failed. -/
def toRelease (w : Worker) : List String := if w.config.role = .primary then w.config.peers else []

/-- The last message of a primary whose run failed. -/
def release (w : Worker) : Message := ⟨Event.stopped, w.name, w.counter + 3, false, false⟩

theorem toRelease_of_secondary (role : w.config.role = .secondary) : toRelease w = [] :=
  if_neg (by rw [role]; decide)

/-- How a run goes: after its part a worker whose run failed releases its peers and brings its board to
rest. -/
inductive RunCourse (polls : Nat) (s : Stream) (w : Worker) :
    Trace runInterface → Except WorkerError Report → Worker → Prop where
  | completed {pruned : Nat} {part : Trace runInterface} {report : Report} {mid w' : Worker}
      (ran : Task.Runs (assigned polls s w.counter w.config.role) { w with counter := w.counter + 3 } part
        (.ok report) mid) :
      RunCourse polls s w (⟨.prune w.name (w.counter + 1), pruned⟩ :: part) (.ok report) w'
  | failed {pruned : Nat} {part releasing closing : Trace runInterface} {e : WorkerError} {mid w' : Worker}
      (ran : Task.Runs (assigned polls s w.counter w.config.role) { w with counter := w.counter + 3 } part
        (.error e) mid)
      (releases : Tells (toRelease w) (release w) releasing)
      (closed : Task.Runs abortBoard mid closing (.ok ()) w') :
      RunCourse polls s w (⟨.prune w.name (w.counter + 1), pruned⟩ :: (part ++ releasing ++ closing)) (.error e) w'

theorem run_foreign {polls : Nat} {s : Stream} (foreign : s.name ≠ w.name) :
    (run polls s).program w = .done (.error (.settings (.invalid (.foreignStream w.name s.name))), w) := by
  unfold RunM.program run
  change StateT.run (ExceptT.run (if s.name ≠ w.name then _ else _)) w = _
  rw [if_pos foreign]
  rfl

/-- A stream of another board is turned away before anything is done. -/
theorem runs_foreign {polls : Nat} {s : Stream} {r : Except WorkerError Report} (foreign : s.name ≠ w.name)
    (runs : Task.Runs (run polls s) w trace r w') :
    trace = [] ∧ r = .error (.settings (.invalid (.foreignStream w.name s.name))) ∧ w' = w := by
  replace runs : ((run polls s).program w).Runs trace (r, w') := runs
  rw [run_foreign foreign] at runs
  obtain ⟨rfl, same⟩ := Program.runs_done.mp runs
  cases same
  exact ⟨rfl, rfl, rfl⟩

theorem run_course {polls : Nat} {s : Stream} {r : Except WorkerError Report} (named : s.name = w.name)
    (runs : Task.Runs (run polls s) w trace r w') : RunCourse polls s w trace r w' := by
  have ends {mid : Worker} {e : WorkerError} {later : Trace runInterface}
      (ending : Task.Runs (abortBoard >>= fun _ => throw e : RunM Report) mid later r w') :
      r = .error e ∧ Task.Runs abortBoard mid later (.ok ()) w' := by
    rcases Task.runs_bind.mp ending with ⟨_, _, _, _, rfl, closed, tail⟩ | ⟨e', _, closed⟩
    · obtain ⟨rfl, rfl, rfl⟩ := Task.runs_throw.mp tail
      rw [List.append_nil]
      exact ⟨rfl, closed⟩
    · cases abortBoard_ok closed
  unfold run at runs
  replace runs := Task.runs_get.mp runs
  dsimp only at runs
  rw [if_neg (not_not_intro named)] at runs
  obtain ⟨pruned, _, rfl, attempting⟩ := runs_ask_bind (Task.runs_set.mp runs)
  obtain ⟨part, _, result, mid, rfl, ran, ended⟩ := runs_attempt_bind attempting
  replace ran : Task.Runs (assigned polls s w.counter w.config.role) { w with counter := w.counter + 3 }
      part result mid := ran
  cases result with
  | ok report =>
    dsimp only at ended
    obtain ⟨rfl, rfl⟩ : _ = [] ∧ r = .ok report := by
      split at ended
      · replace ended := Task.runs_modify.mp ended
        exact (Task.runs_pure.mp ended).imp_right And.left
      · exact (Task.runs_pure.mp ended).imp_right And.left
    rw [List.append_nil]
    exact .completed ran
  | error e =>
    dsimp only at ended
    have config : mid.config = w.config := congrArg Prod.fst (assigned_fixed ran).1
    have name : mid.name = w.name := congrArg BoardConfig.name config
    split at ended
    · rename_i primary
      have releasing : Task.Runs ((mid.config.peers.forM fun peer =>
          ignoringErrors (post peer Event.stopped (w.counter + 3) false false)) >>= fun _ =>
            (abortBoard >>= fun _ => throw e : RunM Report)) mid _ r w' := ended
      obtain ⟨_, closing, rfl, tells, tail⟩ := runs_tellAll releasing
      obtain ⟨rfl, closed⟩ := ends tail
      rw [name, config] at tells
      rw [← List.append_assoc]
      exact .failed ran (by rwa [toRelease, if_pos primary]) closed
    · rename_i secondary
      obtain ⟨rfl, closed⟩ := ends ended
      rw [← List.append_nil part]
      exact .failed ran (by rw [toRelease, if_neg secondary]; exact .nil) closed

/-- The result is that of the role's part, whatever follows it. -/
theorem run_assigned {polls : Nat} {s : Stream} {r : Except WorkerError Report} (own : s.name = w.name)
    (runs : Task.Runs (run polls s) w trace r w') :
    ∃ pruned part closing mid, trace = ⟨.prune w.name (w.counter + 1), pruned⟩ :: (part ++ closing) ∧
      Task.Runs (assigned polls s w.counter w.config.role) { w with counter := w.counter + 3 } part r mid := by
  cases run_course own runs with
  | @completed pruned part _ mid _ ran => exact ⟨pruned, part, [], mid, by rw [List.append_nil], ran⟩
  | @failed pruned part releasing closing _ mid _ ran _ _ =>
    exact ⟨pruned, part, releasing ++ closing, mid, by rw [List.append_assoc], ran⟩

/-- The other way round, a part that fails and a board that is brought to rest make a run. -/
theorem run_of_failed {polls : Nat} (pruned : Nat) {s : Stream} {part closing : Trace runInterface}
    {e : WorkerError} {mid : Worker} (own : s.name = w.name)
    (ran : Task.Runs (assigned polls s w.counter w.config.role) { w with counter := w.counter + 3 } part (.error e)
      mid)
    (closed : Task.Runs abortBoard mid closing (.ok ()) w') :
    Task.Runs (run polls s) w (⟨.prune w.name (w.counter + 1), pruned⟩ ::
      (part ++ (announcement (toRelease w) (release w) ++ closing))) (.error e) w' := by
  have config : mid.config = w.config := congrArg Prod.fst (assigned_fixed ran).1
  have ended : Task.Runs (abortBoard >>= fun _ => throw e : RunM Report) mid closing (.error e) w' :=
    Task.runs_bind.mpr (.inl ⟨closing, [], (), w', (List.append_nil _).symm, closed,
      Task.runs_throw.mpr ⟨rfl, rfl, rfl⟩⟩)
  unfold run
  refine Task.runs_get.mpr ?_
  dsimp only
  rw [if_neg (not_not_intro own)]
  refine Task.runs_set.mpr (Program.runs_call.mpr ⟨_, _, rfl, ?_⟩)
  refine Task.runs_bind.mpr (.inl ⟨part, _, .error e, mid, rfl, runs_attempt.mpr ⟨_, rfl, ran⟩, ?_⟩)
  dsimp only
  split
  · rename_i primary
    have name : mid.name = w.name := congrArg BoardConfig.name config
    rw [toRelease, if_pos primary, release, ← name, ← config]
    exact tellAll_runs ended
  · rename_i secondary
    rw [toRelease, if_neg secondary]
    exact ended

end Worker

end Sequencer
