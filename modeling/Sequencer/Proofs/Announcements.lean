import Sequencer.Proofs.Rehearsal
import Sequencer.Proofs.RunCourse
import Sequencer.Proofs.SecondaryRun

/-!
What a worker tells its peers in a run over a bus that takes its messages: one message for each barrier,
also when the run fails, so that no peer waits for a message that never comes.
-/
namespace Sequencer

/-- The stream was announced and sent, and both were acknowledged. -/
def Uploaded (events : List RunEvent) : Prop :=
  ∃ count, exchange (.write count) .ack ++ [.answered (.ok .ack)] <:+: events

/-- All messages for a worker. -/
def postedTo (recipient : String) (trace : Trace runInterface) : List Message :=
  trace.filterMap fun move => match move.1 with
    | .post other message => if other = recipient then some message else none
    | _ => none

/-- Calls that look for a message. -/
def RunCall.isWaiting : RunCall → Bool
  | wait _ _ _ | poll _ _ => true
  | _ => false

section
variable {recipient : String} {first second trace : Trace runInterface} {peers : List String}
  {message : Message} {told : Except BarrierError Unit}

@[simp] theorem postedTo_append :
    postedTo recipient (first ++ second) = postedTo recipient first ++ postedTo recipient second :=
  List.filterMap_append

theorem postedTo_silent (silent : ∀ move ∈ trace, move.1.isSilent) : postedTo recipient trace = [] := by
  refine List.filterMap_eq_nil_iff.mpr fun move member => ?_
  have isSilent := silent move member
  obtain ⟨c, answer⟩ := move
  cases c with
  | post other message => cases isSilent
  | _ => rfl

theorem postedTo_posting {other : String} : postedTo recipient (.posting other message told :: trace) =
    (if other = recipient then [message] else []) ++ postedTo recipient trace := by
  by_cases own : other = recipient <;> simp [postedTo, Move.posting, own]

theorem Tells.postedTo (tells : Tells peers message trace) (distinct : peers.Nodup) :
    postedTo recipient trace = if recipient ∈ peers then [message] else [] := by
  induction tells with
  | nil => rfl
  | @cons peer _ rest _ posts _ ih =>
    obtain ⟨told, rfl⟩ := posts
    obtain ⟨absent, distinct⟩ := List.nodup_cons.mp distinct
    rw [postedTo_posting, ih distinct]
    by_cases own : peer = recipient
    · simp [own, own ▸ absent]
    · simp [own, Ne.symm own]

end

/-- A piece of a list that begins with an item that occurs once. -/
theorem infix_iff_of_once {α : Type} {x y : α} {rest past tail : List α} (before : x ∉ past)
    (after : x ∉ tail) : x :: rest <:+: past ++ y :: tail ↔ y = x ∧ rest <+: tail := by
  constructor
  · rintro ⟨front, back, split⟩
    rw [List.append_assoc, List.cons_append] at split
    obtain ⟨_, same, tails⟩ := (List.append_cons_inj_of_notMem before after).mp split.symm
    exact ⟨same, back, tails.symm⟩
  · rintro ⟨rfl, back, rfl⟩
    exact ⟨past, back, by simp⟩

theorem not_infix_of_fresh {α : Type} {x : α} {rest events : List α} (fresh : x ∉ events) :
    ¬x :: rest <:+: events := fun found => fresh (found.subset List.mem_cons_self)

namespace Worker
variable {w w' : Worker} {trace : Trace runInterface} {v : View}

section
variable {past later events tail : List RunEvent}

theorem not_uploaded (unasked : Unasked .write events) : ¬Uploaded events :=
  fun ⟨_, found⟩ => not_infix_of_fresh (unasked.fresh rfl) found

theorem not_started (unasked : Unasked .start events) : ¬Started events :=
  fun ⟨_, found⟩ => not_infix_of_fresh (unasked.fresh rfl) found

theorem uploaded_iff_of_request {count : Word} (before : Unasked .write past) (after : Unasked .write later) :
    Uploaded (past ++ .requested (.write count) :: later) ↔
      [.answered (.ok .ack), .answered (.ok .ack)] <+: later := by
  constructor
  · rintro ⟨n, found⟩
    exact ((infix_iff_of_once (before.fresh rfl) (after.fresh rfl)).mp found).2
  · intro both
    exact ⟨count, (infix_iff_of_once (before.fresh rfl) (after.fresh rfl)).mpr ⟨rfl, both⟩⟩

theorem started_iff_of_request {cycles : Word} (before : Unasked .start past) (after : Unasked .start later) :
    Started (past ++ .requested (.start cycles) :: later) ↔ [.answered (.ok .ack)] <+: later := by
  constructor
  · rintro ⟨n, found⟩
    exact ((infix_iff_of_once (before.fresh rfl) (after.fresh rfl)).mp found).2
  · intro both
    exact ⟨cycles, (infix_iff_of_once (before.fresh rfl) (after.fresh rfl)).mpr ⟨rfl, both⟩⟩

/-- Whatever comes later, a stream is uploaded if its sending succeeded. -/
theorem uploaded_iff_of_written {c c' : Client} {v' : View} {r : Except LinkError Unit}
    (written : Client.Written c v r c' v') (before : Unasked .write v.events) (after : Unasked .write tail) :
    Uploaded (v'.events ++ tail) ↔ r.toBool := by
  rcases written with ⟨failed, missed⟩ | ⟨failed, rfl, rfl⟩ | @⟨count, answer, could, rfl, outcome, _⟩
  · rcases missed with ⟨_, rfl, rfl⟩ | ⟨could, rfl, unmet, _⟩
    · simp [not_uploaded (before.append after), failed]
    · simp only [List.append_assoc, List.cons_append, List.nil_append]
      rw [uploaded_iff_of_request before after.answered, failed]
      refine iff_of_false (fun both => ?_) Bool.false_ne_true
      obtain ⟨same, _⟩ := List.cons_prefix_cons.mp both
      exact unmet .ack (RunEvent.answered.inj same).symm rfl
  · simp [not_uploaded (before.append after), failed]
  · simp only [exchange, List.append_assoc, List.cons_append, List.nil_append]
    rw [uploaded_iff_of_request before after.answered.answered, outcome]
    simp [List.cons_prefix_cons, eq_comm]

/-- Whatever comes later, a board has started if `start` succeeded. -/
theorem started_iff_of_asked {c c' : Client} {v' : View} {cycles : Word} {allowed : List LinkState}
    {r : Except LinkError Unit} (asked : v.Asks (.start cycles) .ack allowed (fun _ => ()) c r c' v')
    (before : Unasked .start v.events) (after : Unasked .start tail) :
    Started (v'.events ++ tail) ↔ r.toBool := by
  obtain ⟨_, missed | @⟨f, _, _, command, rfl⟩, rfl⟩ := asked
  · refine iff_of_false (fun started => ?_) nofun
    rcases missed with ⟨_, rfl, rfl⟩ | ⟨could, rfl, unmet, _⟩
    · exact not_started (before.append after) started
    · simp only [List.append_assoc, List.cons_append, List.nil_append] at started
      rw [started_iff_of_request before after.answered] at started
      obtain ⟨same, _⟩ := List.cons_prefix_cons.mp started
      exact unmet .ack (RunEvent.answered.inj same).symm rfl
  · obtain rfl := f.eq_ack command
    refine iff_of_true ?_ rfl
    simp only [View.after, exchange, List.append_assoc, List.cons_append, List.nil_append]
    rw [started_iff_of_request before after.answered]
    simp [List.cons_prefix_cons]

end

theorem upload_uploads {s : Stream} {r : Except WorkerError ConfigFrame} {tail : List RunEvent}
    (runs : Task.Runs (upload s) w trace r w') (ready : v.line = .ready)
    (before : Unasked .write v.events) (after : Unasked .write tail) :
    Uploaded ((v.along trace).events ++ tail) ↔ r.toBool := by
  rw [upload_eq] at runs
  rcases Task.runs_bind.mp runs with ⟨first, _, applied, w₁, rfl, configured, sending⟩ | ⟨e, rfl, failed⟩
  · have segment := configureFor_part s _ _ _ _ configured
    have ready₁ := (segment.grows v ready).1
    have before₁ := segment.unasked ready (by decide) before
    rw [View.along_append]
    rcases Task.runs_bind.mp sending with ⟨second, _, _, w₂, rfl, sent, ended⟩ | ⟨e, rfl, unsent⟩
    · obtain ⟨rfl, rfl, _⟩ := Task.runs_pure.mp ended
      obtain ⟨result, client, written, _, outcome⟩ :=
        onBoard_runs (Client.write_spec Law.free_isLenient ready₁ s.bytes) sent
      rw [List.append_nil, uploaded_iff_of_written written before₁ after]
      cases result with
      | ok u => rfl
      | error e => cases outcome
    · obtain ⟨result, client, written, _, outcome⟩ :=
        onBoard_runs (Client.write_spec Law.free_isLenient ready₁ s.bytes) unsent
      rw [uploaded_iff_of_written written before₁ after]
      cases result with
      | ok u => cases outcome
      | error e => rfl
  · have segment := configureFor_part s _ _ _ _ failed
    exact iff_of_false (not_uploaded ((segment.unasked ready (by decide) before).append after)) nofun

/-- A primary is ready exactly if its stream is uploaded. -/
theorem prepare_uploads {s : Stream} {r : Except WorkerError ConfigFrame} {tail : List RunEvent}
    (runs : Task.Runs (prepare s) w trace r w') (ready : v.line = .ready)
    (before : Unasked .write v.events) (after : Unasked .write tail) :
    Uploaded ((v.along trace).events ++ tail) ↔ r.toBool := by
  rcases Task.runs_bind.mp runs with ⟨first, second, _, w₁, rfl, connected, uploading⟩ | ⟨e, rfl, failed⟩
  · have segment := connectAndReset_part _ _ _ _ connected
    rw [View.along_append]
    exact upload_uploads uploading (segment.grows v ready).1 (segment.unasked ready (by decide) before) after
  · have segment := connectAndReset_part _ _ _ _ failed
    exact iff_of_false (not_uploaded ((segment.unasked ready (by decide) before).append after)) nofun

/-- A secondary has joined exactly if its board has started. -/
theorem joinStart_starts {primary : String} {s : Stream} {counter : Word}
    {r : Except WorkerError ConfigFrame} {tail : List RunEvent}
    (runs : Task.Runs (joinStart primary s counter) w trace r w') (ready : v.line = .ready)
    (before : Unasked .start v.events) (after : Unasked .start tail) :
    Started ((v.along trace).events ++ tail) ↔ r.toBool := by
  rw [joinStart_eq] at runs
  rcases Task.runs_bind.mp runs with ⟨first, _, applied, w₁, rfl, approached, starting⟩ | ⟨e, rfl, failed⟩
  · have segment := approach_part _ _ _ _ _ _ _ approached
    have ready₁ := (segment.grows v ready).1
    have before₁ := segment.unasked ready (by decide) before
    have spec : Task.wp (linkWatch .free) (Client.start applied.cycles) _ w₁.client (v.along first) :=
      Client.start_spec Law.free_isLenient ready₁ applied.cycles trivial
    rw [View.along_append]
    rcases Task.runs_bind.mp starting with ⟨second, _, _, w₂, rfl, started, ended⟩ | ⟨e, rfl, unstarted⟩
    · obtain ⟨rfl, rfl, _⟩ := Task.runs_pure.mp ended
      obtain ⟨result, client, asked, _, outcome⟩ := onBoard_runs spec started
      rw [List.append_nil, started_iff_of_asked asked before₁ after]
      cases result with
      | ok u => rfl
      | error e => cases outcome
    · obtain ⟨result, client, asked, _, outcome⟩ := onBoard_runs spec unstarted
      rw [started_iff_of_asked asked before₁ after]
      cases result with
      | ok u => cases outcome
      | error e => rfl
  · have segment := approach_part _ _ _ _ _ _ _ failed
    exact iff_of_false (not_started ((segment.unasked ready (by decide) before).append after)) nofun

/-- What a primary's peers hear first, and when; later nothing is uploaded any more. -/
theorem start_announced {pruned : Nat} {preparing : Trace runInterface} {s : Stream} {peers : List String}
    {prepared : Except WorkerError ConfigFrame} {name : String} {counter : Word} {ok : Bool}
    (ran : Task.Runs (prepare s) w preparing prepared w') (result : prepared.toBool = ok) :
    let early := ⟨.prune name counter, pruned⟩ ::
      (preparing ++ announcement peers ⟨Event.start, name, counter, ok, false⟩)
    (∀ move ∈ early, move.1.isWaiting = false) ∧
      (∀ late, Spared .write late → (ok = true ↔ Uploaded (heard (early ++ late)))) ∧
      (peers.Nodup → ∀ peer, postedTo peer early =
        if peer ∈ peers then [⟨Event.start, name, counter, ok, false⟩] else []) := by
  have segment := prepare_part s _ _ _ _ ran
  refine ⟨fun move member => ?_, fun late spared => ?_, fun distinct peer => ?_⟩
  · rcases List.mem_cons.mp member with rfl | member
    · rfl
    · rcases List.mem_append.mp member with own | posting
      · have isLocal := segment.calls move own
        obtain ⟨c, answer⟩ := move
        cases c <;> simp_all [RunCall.isLocal, RunCall.isWaiting]
      · obtain ⟨_, _, rfl⟩ := List.mem_map.mp posting
        rfl
  · have ready := (segment.grows {} rfl).1
    have rest : Spared .write (announcement peers ⟨Event.start, name, counter, ok, false⟩ ++ late) :=
      (tells_announcement.adds fun _ => rfl).append spared
    obtain ⟨_, later, events, unasked⟩ := rest _ ready
    have uploads := prepare_uploads (v := {}) ran rfl (fun _ absent => by cases absent) unasked
    rw [← events, ← View.along_append, result, ← List.append_assoc] at uploads
    exact uploads.symm
  · have silent : postedTo peer preparing = [] :=
      postedTo_silent fun move member => RunCall.isSilent_of_isLocal (segment.calls move member)
    show postedTo peer (preparing ++ _) = _
    rw [postedTo_append, silent, tells_announcement.postedTo distinct, List.nil_append]

/-- After its part has failed, a primary releases everyone and uploads nothing. -/
theorem release_tells {mid : Worker} {releasing closing : Trace runInterface} (distinct : w.config.peers.Nodup)
    (releases : Tells w.config.peers (release w) releasing) (closed : Task.Runs abortBoard mid closing (.ok ()) w') :
    Spared .write (releasing ++ closing) ∧ ∀ peer, postedTo peer (releasing ++ closing) =
      if peer ∈ w.config.peers then [⟨Event.stopped, w.name, w.counter + 3, false, false⟩] else [] := by
  have segment := abortBoard_part _ _ _ _ closed
  have spared : Spared .write releasing := releases.adds fun _ => rfl
  refine ⟨spared.append (segment.spared (by decide)), fun peer => ?_⟩
  rw [postedTo_append, releases.postedTo distinct,
    postedTo_silent fun move member => RunCall.isSilent_of_isLocal (segment.calls move member), List.append_nil]
  rfl

/-- A primary tells everyone in time whether it is ready, and if it fails it releases everyone. -/
theorem primary_tells {polls : Nat} {s : Stream} {r : Except WorkerError Report}
    (role : w.config.role = .primary) (distinct : w.config.peers.Nodup) (delivered : Delivered trace)
    (course : RunCourse polls s w trace r w') : ∃ early late ok, trace = early ++ late ∧
      (∀ move ∈ early, move.1.isWaiting = false) ∧ (ok = true ↔ Uploaded (heard trace)) ∧ ∀ peer,
        postedTo peer early = (if peer ∈ w.config.peers then
          [⟨Event.start, w.name, w.counter + 1, ok, false⟩] else []) ∧
        postedTo peer late = if peer ∈ w.config.peers ∧ r.toBool = false then
          [⟨Event.stopped, w.name, w.counter + 3, false, false⟩] else [] := by
  cases course with
  | completed ran =>
    rw [role] at ran
    cases runPrimary_course ran with
    | led prepared led =>
      obtain ⟨unhurried, uploaded, posts⟩ := start_announced prepared (show _ = true from rfl)
      refine ⟨_, _, true, rfl, unhurried, uploaded _ (led.spared (by decide)),
        fun peer => ⟨posts distinct peer, ?_⟩⟩
      rw [postedTo_silent led.calls, if_neg (by simp [Except.toBool])]
  | @failed pruned part releasing closing _ _ _ ran releases closed =>
    have own : part ⊆ ⟨.prune w.name (w.counter + 1), pruned⟩ :: (part ++ releasing ++ closing) :=
      fun _ member => List.mem_cons_of_mem _ (List.mem_append_left _ (List.mem_append_left _ member))
    rw [toRelease, if_pos role] at releases
    obtain ⟨spared, told⟩ := release_tells distinct releases closed
    rw [role] at ran
    cases runPrimary_course ran with
    | unannounced prepared split =>
      cases (delivered.mono own).last
    | unprepared prepared =>
      obtain ⟨unhurried, uploaded, posts⟩ := start_announced prepared (show _ = false from rfl)
      refine ⟨_, releasing ++ closing, false, ?_, unhurried, ?_, fun peer => ⟨posts distinct peer, ?_⟩⟩
      · simp only [List.cons_append, List.append_assoc]
        rfl
      · have ready := uploaded _ spared
        simp only [List.cons_append, List.append_assoc] at ready ⊢
        exact ready
      · rw [told]
        simp [Except.toBool]
    | @led _ rest _ _ _ _ prepared led =>
      obtain ⟨unhurried, uploaded, posts⟩ := start_announced prepared (show _ = true from rfl)
      refine ⟨_, rest ++ (releasing ++ closing), true, ?_, unhurried, ?_,
        fun peer => ⟨posts distinct peer, ?_⟩⟩
      · simp only [List.cons_append, List.append_assoc]
        rfl
      · have ready := uploaded _ ((led.spared (by decide)).append spared)
        simp only [List.cons_append, List.append_assoc] at ready ⊢
        exact ready
      · rw [postedTo_append, postedTo_silent led.calls, told]
        simp [Except.toBool]

theorem started_iff_along {primary : String} {s : Stream} {counter pruning : Word} {name : String} {pruned : Nat}
    {joining later : Trace runInterface} {joined : Except WorkerError ConfigFrame}
    (ran : Task.Runs (joinStart primary s counter) w joining joined w') (spared : Spared .start later) :
    Started (heard (⟨.prune name pruning, pruned⟩ :: (joining ++ later))) ↔ joined.toBool := by
  have ready := ((joinStart_part _ _ _ _ _ _ _ ran).grows {} rfl).1
  obtain ⟨_, new, events, unasked⟩ := spared _ ready
  have starts := joinStart_starts (v := {}) ran rfl (fun _ absent => by cases absent) unasked
  rw [← events, ← View.along_append] at starts
  exact starts

/-- What a secondary tells its primary in its part of a run. -/
theorem SecondaryCourse.tells {polls : Nat} {s : Stream} {base : Word} {r : Except WorkerError Report}
    {primary : String} (delivered : Delivered trace) (course : SecondaryCourse polls primary s base w trace r w') :
    ∃ ok warn,
      (∀ peer, postedTo peer trace = if peer = primary then
        ⟨Event.started, w.name, base + 2, ok, false⟩ ::
          (if ok then [⟨Event.stopped, w.name, base + 3, r.toBool, warn⟩] else []) else []) ∧
      ∀ name counter pruned later, Spared .start later →
        (Started (heard (⟨.prune name counter, pruned⟩ :: (trace ++ later))) ↔ ok = true) := by
  cases course with
  | untold joined => cases delivered.last
  | @unstarted joining e _ joined =>
    have silent := (joinStart_part _ _ _ _ _ _ _ joined).calls
    refine ⟨false, false, fun peer => ?_, fun name counter pruned later spared => ?_⟩
    · rw [postedTo_append, postedTo_silent silent, postedTo_posting]
      simp [postedTo, eq_comm]
    · rw [List.append_assoc]
      exact started_iff_along joined ((posting_adds rfl).append spared)
  | @started joining awaiting leaving applied result unlocked told w₁ w₂ _ joined completed left =>
    rw [← List.cons_append, ← List.append_assoc] at delivered
    obtain rfl := delivered.last
    have silent := (joinStart_part _ _ _ _ _ _ _ joined).calls
    have awaits := awaitComplete_part _ _ _ _ _ _ _ _ _ completed
    have leaves := leaveClock_part _ _ _ _ _ left
    refine ⟨true, clockLostIn result, fun peer => ?_, fun name counter pruned later spared => ?_⟩
    · have outcome : (result.toBool && unlocked.toBool) = (Except.mapError .barrier (.ok ()) >>= fun _ : Unit =>
          unlocked >>= fun _ => result).toBool := by
        cases unlocked <;> cases result <;> rfl
      rw [postedTo_append, postedTo_silent silent, postedTo_posting, postedTo_append, postedTo_append,
        postedTo_silent awaits.calls,
        postedTo_silent fun move member => RunCall.isSilent_of_isLocal (leaves.calls move member),
        postedTo_posting, outcome]
      by_cases own : primary = peer <;> simp [postedTo, own, eq_comm]
    · rw [List.append_assoc, List.cons_append]
      refine started_iff_along joined ((posting_adds rfl).append (Adds.append ?_ spared))
      exact ((awaits.spared (by decide)).append (leaves.spared (by decide))).append (posting_adds rfl)

/-- A secondary that follows nobody tells nobody anything. -/
theorem alone_tells {polls : Nat} {s : Stream} {r : Except WorkerError Report}
    (role : w.config.role = .secondary) (alone : w.config.peers = [])
    (course : RunCourse polls s w trace r w') (peer : String) : postedTo peer trace = [] := by
  cases course with
  | completed ran =>
    obtain ⟨_, impossible, _⟩ := assigned_alone role alone ran
    cases impossible
  | failed ran releases closed =>
    obtain ⟨rfl, _, _⟩ := assigned_alone role alone ran
    rw [toRelease_of_secondary role] at releases
    rw [releases.of_nobody, List.nil_append, List.nil_append]
    refine postedTo_silent fun move member => ?_
    rcases List.mem_cons.mp member with rfl | member
    · rfl
    · exact RunCall.isSilent_of_isLocal ((abortBoard_part _ _ _ _ closed).calls move member)

/-- What a secondary tells its primary, whether it has started or not. -/
theorem secondary_tells {polls : Nat} {s : Stream} {r : Except WorkerError Report} {primary : String}
    {rest : List String} (role : w.config.role = .secondary) (leader : w.config.peers = primary :: rest)
    (delivered : Delivered trace) (course : RunCourse polls s w trace r w') :
    ∃ ok warn, (ok = true ↔ Started (heard trace)) ∧ ∀ peer,
      postedTo peer trace = if peer = primary then
        ⟨Event.started, w.name, w.counter + 2, ok, false⟩ ::
          (if ok then [⟨Event.stopped, w.name, w.counter + 3, r.toBool, warn⟩] else []) else [] := by
  cases course with
  | @completed pruned part _ _ _ ran =>
    obtain ⟨ok, warn, posts, started⟩ :=
      (assigned_follows role leader ran).tells (delivered.mono (List.subset_cons_self _ _))
    refine ⟨ok, warn, ?_, posts⟩
    have same := started w.name (w.counter + 1) pruned [] fun v ready => .refl ready
    rw [List.append_nil] at same
    exact same.symm
  | @failed pruned part releasing closing _ _ _ ran releases closed =>
    rw [toRelease_of_secondary role] at releases
    obtain rfl := releases.of_nobody
    rw [List.append_nil] at delivered ⊢
    have own : part ⊆ ⟨.prune w.name (w.counter + 1), pruned⟩ :: (part ++ closing) :=
      fun _ member => List.mem_cons_of_mem _ (List.mem_append_left _ member)
    obtain ⟨ok, warn, posts, started⟩ := (assigned_follows role leader ran).tells (delivered.mono own)
    have rests := abortBoard_part _ _ _ _ closed
    refine ⟨ok, warn, (started w.name (w.counter + 1) pruned closing (rests.spared (by decide))).symm, fun peer => ?_⟩
    have told : postedTo peer (part ++ closing) = postedTo peer part := by
      rw [postedTo_append,
        postedTo_silent fun move member => RunCall.isSilent_of_isLocal (rests.calls move member), List.append_nil]
    exact told.trans (posts peer)

/-- What a worker tells its peers in a run, if the bus takes its messages. A primary announces that it is
ready, or that it is not, before it waits for anybody, and releases all of them if its run fails. A
secondary tells its primary whether it has started, and if it has, how its run ended. Nobody hears
anything else. -/
theorem run_announces {polls : Nat} {s : Stream} {r : Except WorkerError Report} (own : s.name = w.name)
    (distinct : w.config.peers.Nodup) (delivered : Delivered trace)
    (runs : Task.Runs (run polls s) w trace r w') :
    match w.config.role, w.config.peers with
    | .primary, peers => ∃ early late ok, trace = early ++ late ∧
      (∀ move ∈ early, move.1.isWaiting = false) ∧ (ok = true ↔ Uploaded (heard trace)) ∧ ∀ peer,
        postedTo peer early = (if peer ∈ peers then
          [⟨Event.start, w.name, w.counter + 1, ok, false⟩] else []) ∧
        postedTo peer late = if peer ∈ peers ∧ r.toBool = false then
          [⟨Event.stopped, w.name, w.counter + 3, false, false⟩] else []
    | .secondary, [] => ∀ peer, postedTo peer trace = []
    | .secondary, primary :: _ => ∃ ok warn, (ok = true ↔ Started (heard trace)) ∧ ∀ peer,
      postedTo peer trace = if peer = primary then
        ⟨Event.started, w.name, w.counter + 2, ok, false⟩ ::
          (if ok then [⟨Event.stopped, w.name, w.counter + 3, r.toBool, warn⟩] else []) else [] := by
  have course := run_course own runs
  split
  · rename_i role
    exact primary_tells role distinct delivered course
  · rename_i role alone
    exact alone_tells role alone course
  · rename_i role leader
    exact secondary_tells role leader delivered course

end Worker

namespace Team

/-- A primary whose board refuses its configuration, and a secondary whose board has lost a sample. -/
theorem failures_announced :
    (∃ trace r w', Task.Runs (Worker.run 5 (sampleStream sample.primary)) sample.primary.worker trace r w' ∧
      r.toBool = false ∧ ∃ early late ok, trace = early ++ late ∧
      (∀ move ∈ early, move.1.isWaiting = false) ∧ (ok = true ↔ Uploaded (heard trace)) ∧ ∀ peer,
        postedTo peer early = (if peer ∈ ["side"] then [⟨"start", "main", 1, ok, false⟩] else []) ∧
        postedTo peer late = if peer ∈ ["side"] ∧ r.toBool = false then
          [⟨"stopped", "main", 3, false, false⟩] else []) ∧
    ∃ trace r w', Task.Runs (Worker.run 5 (sampleStream side)) side.worker trace r w' ∧
      r.toBool = false ∧ ∃ ok warn, (ok = true ↔ Started (heard trace)) ∧ ∀ peer,
        postedTo peer trace = if peer = "main" then
          ⟨"started", "side", 2, ok, false⟩ ::
            (if ok then [⟨"stopped", "side", 3, r.toBool, warn⟩] else []) else [] := by
  constructor
  · obtain ⟨trace, r, w', runs, checked⟩ := played_runs sample.primary [] [.ack, .ack, .nack, .ack, .ack]
      (fun trace r => decide (Delivered trace) && !r.toBool) (by decide +kernel)
    simp only [Bool.and_eq_true, decide_eq_true_eq, Bool.not_eq_true'] at checked
    obtain ⟨delivered, failed⟩ := checked
    exact ⟨trace, r, w', runs, failed, Worker.run_announces rfl (by decide) delivered runs⟩
  · obtain ⟨trace, r, w', runs, checked⟩ := played_runs side [⟨"start", "main", 1, true, false⟩]
      [.ack, .ack, .getRegister ⟨Register.control, 0⟩, .setRegister ⟨Register.control, 0⟩,
        .statusReply { status := Status.externalLocked }, .config { cycles := 1 }, .ack, .ack, .ack,
        .statusReply { status := Status.ended, time := 5, samples := 1 },
        .setRegister ⟨Register.control, 0⟩, .ack, .ack, .ack]
      (fun trace r => decide (Delivered trace) && !r.toBool) (by decide +kernel)
    simp only [Bool.and_eq_true, decide_eq_true_eq, Bool.not_eq_true'] at checked
    obtain ⟨delivered, failed⟩ := checked
    exact ⟨trace, r, w', runs, failed, Worker.run_announces rfl (by decide) delivered runs⟩

end Team

end Sequencer
