import Sequencer.Proofs.Announcements

/-!
A secondary that was put on the external clock is taken off it again before its run returns, however
the run ends, unless it ends by closing the connection before it has waited for the end.
-/
namespace Sequencer

theorem Word.not_isSet_clear {mask part : Word} (w : Word) (within : ~~~mask &&& part = 0) :
    (w.clear mask).isSet part = false := by
  simp [isSet, clear, BitVec.and_assoc, within]

namespace Frame

/-- Puts the board on the external clock. -/
def asksExternal : Frame → Bool
  | setRegister r => r.offset = Register.control && r.value.isSet Control.externalClock
  | config c => c.control.isSet Control.externalClock
  | _ => false

/-- Takes the board off the external clock, and out of the automatic synchronisation. -/
def leavesExternal : Frame → Bool
  | setRegister r => r.offset = Register.control && !r.value.isSet Control.manualMask
  | reset => true
  | _ => false

end Frame

/-- Anything but a request for the external clock. -/
def RunEvent.isInternal : RunEvent → Bool
  | requested request => !request.asksExternal
  | _ => true

theorem RunEvent.isInternal_of_isWithin {commands : List Command} {x : RunEvent}
    (noRegister : .setRegister ∉ commands) (noConfig : .config ∉ commands)
    (within : x.isWithin commands) : x.isInternal := by
  cases x with
  | requested request =>
    have listed : request.command ∈ commands := by simpa [isWithin] using within
    cases request with
    | setRegister r => exact absurd listed noRegister
    | config c => exact absurd listed noConfig
    | _ => rfl
  | _ => rfl

namespace View
variable {v v' v'' : View} {before after : List RunEvent} {request : Frame}

/-- The board was taken off the external clock. -/
def Leaves (v v' : View) : Prop :=
  ∃ new g, v'.events = v.events ++ new ∧ .requested g ∈ new ∧ g.leavesExternal

theorem Leaves.of_asked {answer : Except LinkError Frame} (leaves : request.leavesExternal)
    (heard : v' = ⟨.ready, v.events ++ [.requested request, .answered answer]⟩) : v.Leaves v' :=
  ⟨_, request, congrArg View.events heard, List.mem_cons_self, leaves⟩

theorem Leaves.grows {kind : RunEvent → Bool} (leaves : v.Leaves v') (grows : v'.Grows kind v'') :
    v.Leaves v'' := by
  obtain ⟨new, g, events, member, off⟩ := leaves
  obtain ⟨_, more, events', _⟩ := grows
  exact ⟨new ++ more, g, by rw [events', events, List.append_assoc], List.mem_append_left _ member, off⟩

theorem Leaves.later {events : List RunEvent} (leaves : v'.Leaves v'') (before : v'.events = v.events ++ events) :
    v.Leaves v'' := by
  obtain ⟨new, g, heard, member, off⟩ := leaves
  exact ⟨events ++ new, g, by rw [heard, before, List.append_assoc], List.mem_append_right _ member, off⟩

/-- A request for the external clock was made before all that is internal. -/
theorem asked_before (grows : v.Grows RunEvent.isInternal v')
    (asked : v'.events = before ++ .requested request :: after) (external : request.asksExternal) :
    .requested request ∈ v.events ∧ ∀ new, v'.events = v.events ++ new → new <:+ after := by
  obtain ⟨_, later, events, each⟩ := grows
  have absent : .requested request ∉ later := fun member => by
    simpa [RunEvent.isInternal, external] using each _ member
  rw [events] at asked
  rcases List.append_eq_append_iff.mp asked with ⟨rest, _, same⟩ | ⟨rest, earlier, same⟩
  · rw [same] at absent
    simp at absent
  · cases rest with
    | nil =>
      rw [List.nil_append] at same
      rw [← same] at absent
      simp at absent
    | cons x rest =>
      obtain ⟨rfl, rfl⟩ := List.cons.inj same
      refine ⟨earlier ▸ List.mem_append_right _ List.mem_cons_self, fun new events' => ?_⟩
      rw [List.append_cancel_left (events'.symm.trans events)]
      exact List.suffix_append _ _

end View

namespace Worker
variable {w mid w' : Worker} {trace body closing : Trace runInterface} {v : View} {before after : List RunEvent}
  {f : Frame}

/-- A linked client's request goes out, whatever becomes of it. -/
theorem leaves_of_asks {α : Type} {p : LinkM α} {request : Frame} {expected : Command} {value : Frame → α}
    {outcome : Except WorkerError α} (linked : w.client.IsLinked) (leaves : request.leavesExternal)
    (spec : Task.wp (linkWatch .free) p (v.Asks request expected Client.anyConnected value w.client) w.client v)
    (ran : Task.Runs (onBoard p) w trace outcome w') : v.Leaves (v.along trace) := by
  obtain ⟨_, _, ⟨_, asked, _⟩, _⟩ := onBoard_runs spec ran
  rcases asked.sent Client.Can.linked with ⟨unable, _⟩ | ⟨answer, heard, _⟩
  · exact absurd linked.can unable
  · exact .of_asked leaves heard

/-- What goes on later does not take the first request back. -/
theorem leaves_bind {α β : Type} {m : RunM α} {f : α → RunM β} {r : Except WorkerError β}
    {calls calls' : RunCall → Bool} {commands commands' : List Command}
    (runs : Task.Runs (m >>= f) w trace r w') (ready : v.line = .ready) (before : Part calls commands m)
    (later : ∀ a, Part calls' commands' (f a))
    (leaves : ∀ first outcome w₁, Task.Runs m w first outcome w₁ → v.Leaves (v.along first)) :
    v.Leaves (v.along trace) := by
  rcases Task.runs_bind.mp runs with ⟨first, second, a, w₁, rfl, ran, goesOn⟩ | ⟨e, rfl, failed⟩
  · rw [View.along_append]
    have ready₁ := ((before _ _ _ _ ran).grows v ready).1
    exact (leaves _ _ _ ran).grows ((later a _ _ _ _ goesOn).grows _ ready₁)
  · exact leaves _ _ _ failed

/-- The register that a secondary writes when it leaves the clock. -/
def unlocking (applied : ConfigFrame) : Frame :=
  .setRegister ⟨Register.control, applied.control.clear Control.manualMask⟩

theorem unlocking_leaves (applied : ConfigFrame) :
    (unlocking applied).leavesExternal ∧ (unlocking applied).asksExternal = false := by
  have cleared : ∀ part, ~~~Control.manualMask &&& part = 0 →
      (applied.control.clear Control.manualMask).isSet part = false := fun _ =>
    Word.not_isSet_clear applied.control
  have mask := cleared Control.manualMask (by decide)
  have clock := cleared Control.externalClock (by decide)
  simp [unlocking, Frame.leavesExternal, Frame.asksExternal, mask, clock]

theorem unlock_part (applied : ConfigFrame) : Part RunCall.isLocal [.setRegister]
    (onBoard (Client.setRegister Register.control (applied.control.clear Control.manualMask))) :=
  asking_part (by simp [Frame.command]) rfl fun _ _ ready =>
    Client.setRegister_spec Law.free_isLenient ready _ _

/-- A secondary with a connection leaves the clock. -/
theorem leaveClock_leaves {applied : ConfigFrame} {r : Except WorkerError Unit}
    (runs : Task.Runs (leaveClock applied) w trace r w') (ready : v.line = .ready)
    (linked : w.client.IsLinked) : v.Leaves (v.along trace) :=
  leaves_bind runs ready (unlock_part applied) (fun _ => stop_part) fun _ _ _ =>
    leaves_of_asks linked (unlocking_leaves applied).1 (Client.setRegister_spec Law.free_isLenient ready _ _)

theorem leaveClock_internal {applied : ConfigFrame} {r : Except WorkerError Unit}
    (runs : Task.Runs (leaveClock applied) w trace r w') : Adds RunEvent.isInternal trace := by
  have unlocked {first : Trace runInterface} {outcome : Except WorkerError Word} {w₁ : Worker}
      (ran : Task.Runs (onBoard (Client.setRegister Register.control (applied.control.clear Control.manualMask)))
        w first outcome w₁) : Adds RunEvent.isInternal first := by
    intro v ready
    obtain ⟨_, _, ⟨_, asked, _⟩, _⟩ :=
      onBoard_runs (Client.setRegister_spec Law.free_isLenient ready Register.control _) ran
    have kind : RunEvent.isInternal (.requested (unlocking applied)) := by
      simp [RunEvent.isInternal, (unlocking_leaves applied).2]
    exact asked.grows ready kind fun _ => rfl
  rcases Task.runs_bind.mp runs with ⟨first, second, _, w₁, rfl, ran, stopping⟩ | ⟨e, rfl, failed⟩
  · exact (unlocked ran).append ((stop_part _ _ _ _ stopping).adds fun _ =>
      RunEvent.isInternal_of_isWithin (by decide) (by decide))
  · exact unlocked failed

theorem abortBoard_internal {r : Except WorkerError Unit} (closed : Task.Runs abortBoard w trace r w') :
    Adds RunEvent.isInternal trace :=
  (abortBoard_part _ _ _ _ closed).adds fun _ => RunEvent.isInternal_of_isWithin (by decide) (by decide)

/-- How a linked board is brought to rest, as long as its connection is not lost. -/
theorem abortBoard_rests {r : Except WorkerError Unit} (closed : Task.Runs abortBoard w trace r w')
    (ready : v.line = .ready) (linked : w.client.IsLinked) (steady : Steady (v.along trace).events) :
    (w.settings.closeOnAbort ∧ ∃ later, (v.along trace).events = v.events ++ .requested .stop :: later ∧
      .requested .close ∈ later) ∨ v.Leaves (v.along trace) := by
  unfold abortBoard at closed
  replace closed := Task.runs_get.mp closed
  split at closed
  · rename_i gone
    exact absurd gone (by simpa [Client.isConnected] using linked.inUse)
  split at closed
  · rename_i closes
    obtain ⟨_, _, ⟨_, rests⟩, _⟩ := onBoard_runs (Client.abort_spec Law.free_isLenient ready) closed
    exact .inl ⟨closes, rests linked steady⟩
  · right
    have sweeping : Part RunCall.isLocal [.status] (onBoard (Client.poll false) >>= fun _ => pure ()) :=
      .bind poll_part fun _ => .pure
    rcases Task.runs_bind.mp closed with ⟨first, second, _, w₁, rfl, stopping, resetting⟩ | ⟨e, _, stopping⟩
    · obtain ⟨_, _, stopped⟩ := runs_ignoringErrors stopping
      obtain ⟨_, _, swept⟩ := runs_ignoringErrors resetting
      obtain ⟨_, _, ⟨_, asked, _⟩, rfl, _⟩ :=
        onBoard_runs (Client.stop_spec Law.free_isLenient ready) stopped
      rcases asked.sent Client.Can.linked with ⟨unable, _⟩ | ⟨answer, heard, kept⟩
      · exact absurd linked.can unable
      have ready₁ : (v.along first).line = .ready := congrArg View.line heard
      have events : (v.along first).events = v.events ++ [.requested .stop, .answered answer] :=
        congrArg View.events heard
      have resets : Part RunCall.isLocal [.reset, .status] (onBoard Client.reset >>= fun _ =>
          onBoard (Client.poll false) >>= fun _ => pure ()) :=
        .bind (reset_part.weaken (fun _ => id) (by simp)) fun _ => sweeping.weaken (fun _ => id) (by simp)
      rw [View.along_append] at steady ⊢
      obtain ⟨_, new, later, _⟩ := (resets _ _ _ _ swept).grows _ ready₁
      rw [later, events] at steady
      have linked₁ := kept (View.suits_of_steady steady.left_of_append)
      have left := leaves_bind swept ready₁ reset_part (fun _ => sweeping) fun _ _ _ =>
        leaves_of_asks linked₁ rfl (Client.reset_spec Law.free_isLenient ready₁)
      exact left.later events
    · cases (runs_ignoringErrors stopping).1

section
variable {calls : RunCall → Bool} {commands : List Command} {failure : Option WorkerError}
  (segment : Segment calls commands w body failure mid) (stays : .close ∉ commands)
include segment stays

/-- A worker that has asked for the external clock is linked, unless its connection was lost. -/
theorem linked_of_asked (steady : Steady (View.along {} body).events)
    (asked : .requested f ∈ (View.along {} body).events) : mid.client.IsLinked :=
  segment.touch stays {} rfl (fun _ ⟨_, absent⟩ => by cases absent) steady ⟨f, asked⟩

theorem left_at_end (closed : Task.Runs abortBoard mid closing (.ok ()) w')
    (steady : Steady (View.along {} (body ++ closing)).events)
    (asked : (View.along {} (body ++ closing)).events = before ++ .requested f :: after)
    (external : f.asksExternal) : (∃ g, .requested g ∈ after ∧ g.leavesExternal) ∨
      (mid.settings.closeOnAbort ∧ ∃ later, .requested .stop :: later <:+ after ∧ .requested .close ∈ later) := by
  rw [View.along_append] at steady asked
  have ready := (segment.grows {} rfl).1
  have grows := abortBoard_internal closed _ ready
  obtain ⟨member, later⟩ := View.asked_before grows asked external
  have linked := linked_of_asked segment stays (steady.of_later grows.begins) member
  rcases abortBoard_rests closed ready linked steady with ⟨closes, new, events, left⟩ | ⟨new, g, events, left, off⟩
  · exact .inr ⟨closes, new, later _ events, left⟩
  · exact .inl ⟨g, (later _ events).subset left, off⟩

theorem left_before_end {leaving rest : Trace runInterface} {applied : ConfigFrame}
    {unlocked : Except WorkerError Unit} (left : Task.Runs (leaveClock applied) mid leaving unlocked w')
    (ended : Adds RunEvent.isInternal rest) (steady : Steady (View.along {} (body ++ (leaving ++ rest))).events)
    (asked : (View.along {} (body ++ (leaving ++ rest))).events = before ++ .requested f :: after)
    (external : f.asksExternal) : ∃ g, .requested g ∈ after ∧ g.leavesExternal := by
  rw [View.along_append] at steady asked
  have ready := (segment.grows {} rfl).1
  have grows := (leaveClock_internal left).append ended _ ready
  obtain ⟨member, later⟩ := View.asked_before grows asked external
  have linked := linked_of_asked segment stays (steady.of_later grows.begins) member
  have leaves := (leaveClock_leaves left ready linked).grows (ended _ (leaveClock_internal left _ ready).1)
  rw [← View.along_append] at leaves
  obtain ⟨new, g, events, off, leaves⟩ := leaves
  exact ⟨g, (later _ events).subset off, leaves⟩

end

section
variable {primary : String} {s : Stream} {joining : Trace runInterface}

/-- A secondary joins and tells its primary. -/
theorem joined_segment {counter : Word} {joined : Except WorkerError ConfigFrame}
    (ran : Task.Runs (joinStart primary s counter) w joining joined w') (message : Message)
    (told : Except BarrierError Unit) :
    Segment (fun _ => true) [.openBoard, .reset, .getRegister, .setRegister, .status, .config, .write, .start] w
      (joining ++ [.posting primary message told]) ((failure? joined).or none) w' :=
  ((joinStart_part _ _ _ _ _ _ _ ran).weaken (fun _ _ => rfl) (List.Subset.refl _)).append
    ((posting_segment _ _ _).weaken (fun _ => id) (by simp))

theorem not_started_of_unjoined {counter pruning : Word} {e : WorkerError} {message : Message}
    {told : Except BarrierError Unit} {name : String} {pruned : Nat} {later : Trace runInterface}
    (ran : Task.Runs (joinStart primary s counter) w joining (.error e) w') (spared : Spared .start later) :
    ¬Started (heard (⟨.prune name pruning, pruned⟩ :: (joining ++ [.posting primary message told] ++ later))) := by
  rw [List.append_assoc, started_iff_along ran ((posting_adds rfl).append spared)]
  exact Bool.false_ne_true

end

/-- A secondary that waits for the end leaves the clock in its part of the run. Otherwise its board has not
started, or the bus refused to tell the primary that it has. -/
theorem SecondaryCourse.leaves {polls : Nat} {primary : String} {s : Stream} {base : Word}
    {part later : Trace runInterface} {r : Except WorkerError Report}
    (course : SecondaryCourse polls primary s base w part r mid) (ended : Adds RunEvent.isInternal later)
    (steady : Steady (View.along {} (part ++ later)).events)
    (asked : (View.along {} (part ++ later)).events = before ++ .requested f :: after)
    (external : f.asksExternal) : (∃ g, .requested g ∈ after ∧ g.leavesExternal) ∨
      r.toBool = false ∧ (∃ commands failure, .close ∉ commands ∧
        Segment (fun _ => true) commands w part failure mid) ∧
      ((∀ name counter pruned, Spared .start later →
          ¬Started (heard (⟨.prune name counter, pruned⟩ :: (part ++ later)))) ∨
        ∃ e, .posting primary ⟨Event.started, w.name, base + 2, true, false⟩ (.error e) ∈ part) := by
  cases course with
  | @untold joining joined e _ ran =>
    refine .inr ⟨rfl, ⟨_, _, by simp, joined_segment ran _ _⟩, ?_⟩
    cases joined with
    | error _ => exact .inl fun _ _ _ => not_started_of_unjoined ran
    | ok _ => exact .inr ⟨e, List.mem_append_right _ (List.mem_singleton_self _)⟩
  | unstarted ran =>
    exact .inr ⟨rfl, ⟨_, _, by simp, joined_segment ran _ _⟩, .inl fun _ _ _ => not_started_of_unjoined ran⟩
  | @started joining awaiting leaving applied result unlocked told w₁ w₂ _ joined completed left =>
    have awaits := awaitComplete_part _ _ _ _ _ _ _ _ _ completed
    have body : Segment (fun _ => true) [.openBoard, .reset, .getRegister, .setRegister, .status, .config,
        .write, .start] w (joining ++ [.posting primary ⟨Event.started, w.name, base + 2, true, false⟩ (.ok ())] ++
          awaiting) _ w₂ := (joined_segment joined _ _).append (awaits.weaken (fun _ _ => rfl) (by simp))
    have closing : Adds RunEvent.isInternal ([.posting primary ⟨Event.stopped, w.name, base + 3,
        result.toBool && unlocked.toBool, clockLostIn result⟩ told] ++ later) := (posting_adds rfl).append ended
    have split (x y : Move runInterface) : joining ++ x :: (awaiting ++ leaving ++ [y]) ++ later =
        joining ++ [x] ++ awaiting ++ (leaving ++ ([y] ++ later)) := by simp
    rw [split] at steady asked
    exact .inl (left_before_end body (by simp) left closing steady asked external)

/-- Only with a stream of its own board, and only behind a primary, does a secondary ask for that clock. -/
theorem follows_of_asked {polls : Nat} {s : Stream} {r : Except WorkerError Report}
    (role : w.config.role = .secondary) (runs : Task.Runs (run polls s) w trace r w')
    (asked : heard trace = before ++ .requested f :: after) (external : f.asksExternal) :
    s.name = w.name ∧ ∃ primary rest, w.config.peers = primary :: rest := by
  by_cases own : s.name = w.name
  · refine ⟨own, List.exists_cons_of_ne_nil fun alone => ?_⟩
    cases run_course own runs with
    | completed ran =>
      obtain ⟨_, impossible, _⟩ := assigned_alone role alone ran
      cases impossible
    | failed ran releases closed =>
      obtain ⟨rfl, _, rfl⟩ := assigned_alone role alone ran
      rw [toRelease_of_secondary role] at releases
      rw [releases.of_nobody] at asked
      obtain ⟨member, _⟩ := View.asked_before (abortBoard_internal closed {} rfl) asked external
      cases member
  · obtain ⟨rfl, _, _⟩ := runs_foreign own runs
    have member : .requested f ∈ heard ([] : Trace runInterface) :=
      asked ▸ List.mem_append_right _ List.mem_cons_self
    cases member

/-- Whatever goes wrong with a secondary that was put on the external clock: it is taken off again before
its run returns. Only a run that ends before its board has started, or because the bus refused to tell
the primary that it has, may end instead by stopping the board and closing the connection, if that is
how failed runs are to end. -/
theorem external_clock_left {polls : Nat} {s : Stream} {r : Except WorkerError Report}
    (role : w.config.role = .secondary) (runs : Task.Runs (run polls s) w trace r w')
    (steady : Steady (heard trace)) (asked : heard trace = before ++ .requested f :: after)
    (external : f.asksExternal) :
    (∃ g, .requested g ∈ after ∧ g.leavesExternal) ∨
      (w.settings.closeOnAbort ∧ (¬Started (heard trace) ∨ ∃ primary e,
          .posting primary ⟨Event.started, w.name, w.counter + 2, true, false⟩ (.error e) ∈ trace) ∧
        ∃ later, .requested .stop :: later <:+ after ∧ .requested .close ∈ later) := by
  obtain ⟨own, primary, rest, leader⟩ := follows_of_asked role runs asked external
  cases run_course own runs with
  | @completed pruned part report mid _ ran =>
    rw [← List.append_nil part] at steady asked
    rcases (assigned_follows role leader ran).leaves (fun _ ready => .refl ready) steady asked external with
      left | ⟨impossible, _⟩
    · exact .inl left
    · cases impossible
  | @failed pruned part releasing closing e mid _ ran releases closed =>
    rw [toRelease_of_secondary role] at releases
    rw [releases.of_nobody, List.append_nil] at steady asked ⊢
    rcases (assigned_follows role leader ran).leaves (abortBoard_internal closed) steady asked external with
      left | ⟨_, ⟨commands, failure, stays, segment⟩, early⟩
    · exact .inl left
    rcases left_at_end segment stays closed steady asked external with left | ⟨closes, rests⟩
    · exact .inl left
    have same : mid.settings = w.settings := (assigned_fixed ran).2
    refine .inr ⟨same ▸ closes, ?_, rests⟩
    rcases early with unstarted | ⟨refusal, refused⟩
    · exact .inl (unstarted _ _ _ ((abortBoard_part _ _ _ _ closed).spared (by decide)))
    · exact .inr ⟨primary, refusal, List.mem_cons_of_mem _ (List.mem_append_left _ refused)⟩

/-- A secondary that cannot tell its primary how it has joined brings its board to rest. -/
theorem run_of_untold {polls : Nat} (pruned : Nat) {s : Stream} {primary : String} {rest : List String}
    {joining : Trace runInterface} {started : Except WorkerError ConfigFrame} (e : BarrierError)
    (role : w.config.role = .secondary) (own : s.name = w.name) (leader : w.config.peers = primary :: rest)
    (joined : Task.Runs (joinStart primary s (w.counter + 1)) { w with counter := w.counter + 3 } joining started mid)
    (closed : Task.Runs abortBoard mid closing (.ok ()) w') :
    Task.Runs (run polls s) w (⟨.prune w.name (w.counter + 1), pruned⟩ :: (joining ++
      ([.posting primary ⟨Event.started, w.name, w.counter + 2, started.toBool, false⟩ (.error e)] ++ closing)))
      (.error (.barrier e)) w' := by
  have name : mid.name = w.name := congrArg (·.1.name) (joinStart_part _ _ _ _ _ _ _ joined).fixed
  have untold : Task.Runs (follow polls primary s w.counter) { w with counter := w.counter + 3 } (joining ++
      [.posting primary ⟨Event.started, w.name, w.counter + 2, started.toBool, false⟩ (.error e)])
      (.error (.barrier e)) mid := by
    refine Task.runs_bind.mpr (.inl ⟨joining, _, started, mid, rfl, runs_attempt.mpr ⟨_, rfl, joined⟩, ?_⟩)
    rw [← name]
    exact runs_post_bind.mpr (.inr ⟨e, rfl, rfl, rfl⟩)
  have runs := run_of_failed pruned own (assigned_runs_follow role leader untold) closed
  rw [toRelease_of_secondary role, List.append_assoc] at runs
  exact runs

end Worker

/-- The first request for the external clock with what follows it. -/
def firstExternal (events : List RunEvent) : Option (Frame × List RunEvent) :=
  match events.dropWhile RunEvent.isInternal with
  | .requested f :: after => some (f, after)
  | _ => none

theorem firstExternal_eq_some {events after : List RunEvent} {f : Frame}
    (found : firstExternal events = some (f, after)) :
    ∃ before, events = before ++ .requested f :: after ∧ f.asksExternal := by
  unfold firstExternal at found
  split at found
  · rename_i request later dropped
    cases found
    have external := List.head_dropWhile_not RunEvent.isInternal (l := events) (by simp [dropped])
    simp only [dropped, List.head_cons, RunEvent.isInternal, Bool.not_eq_false'] at external
    refine ⟨events.takeWhile RunEvent.isInternal, ?_, external⟩
    rw [← dropped, List.takeWhile_append_dropWhile]
  · cases found

/-- The board is still on the external clock that was asked for first. -/
def staysExternal (events : List RunEvent) : Bool :=
  (firstExternal events).any fun asked => asked.2.all fun x => match x with
    | .requested g => !g.leavesExternal
    | _ => true

theorem exists_of_staysExternal {events : List RunEvent} (stays : staysExternal events) :
    ∃ before f after, events = before ++ .requested f :: after ∧ f.asksExternal ∧
      ∀ g, .requested g ∈ after → g.leavesExternal = false := by
  obtain ⟨⟨f, after⟩, found, kept⟩ := (Option.any_eq_true _ _).mp stays
  obtain ⟨before, asked, external⟩ := firstExternal_eq_some found
  exact ⟨before, f, after, asked, external, fun g member => by simpa using List.all_eq_true.mp kept _ member⟩

namespace Team

/-- A secondary that resets its board after a failed run. -/
def resettingSide : Member := ⟨side.config, { closeOnAbort := false }⟩

/-- The board locks to the external clock, and refuses its configuration. -/
def refusal : List Frame :=
  [.ack, .ack, .getRegister ⟨Register.control, 0⟩, .setRegister ⟨Register.control, 0⟩,
    .statusReply { status := Status.externalLocked }, .nack, .ack, .ack, .statusReply {}]

theorem refused_leaves : ∃ trace r w' before after f,
    Task.Runs (Worker.run 5 (sampleStream resettingSide)) resettingSide.worker trace r w' ∧
      Steady (heard trace) ∧ heard trace = before ++ .requested f :: after ∧ f.asksExternal ∧
      ∃ g, .requested g ∈ after ∧ g.leavesExternal := by
  obtain ⟨trace, r, w', runs, checked⟩ := played_runs resettingSide [⟨"start", "main", 1, true, false⟩] refusal
    (fun trace _ => decide (Steady (heard trace)) && (firstExternal (heard trace)).isSome) (by decide +kernel)
  simp only [Bool.and_eq_true, decide_eq_true_eq] at checked
  obtain ⟨steady, external⟩ := checked
  obtain ⟨⟨f, after⟩, found⟩ := Option.isSome_iff_exists.mp external
  obtain ⟨before, asked, external⟩ := firstExternal_eq_some found
  refine ⟨trace, r, w', before, after, f, runs, steady, asked, external, ?_⟩
  rcases Worker.external_clock_left rfl runs steady asked external with left | ⟨closes, _⟩
  · exact left
  · cases closes

/-- A failed run that closes the connection leaves its board on the external clock. -/
theorem refused_stays : ¬∀ polls s w trace r w' before after f, w.config.role = .secondary → s.name = w.name →
    Task.Runs (Worker.run polls s) w trace r w' → Steady (heard trace) →
    heard trace = before ++ .requested f :: after → f.asksExternal →
    ∃ g, .requested g ∈ after ∧ g.leavesExternal := by
  intro always
  obtain ⟨trace, r, w', runs, checked⟩ := played_runs side [⟨"start", "main", 1, true, false⟩] refusal
    (fun trace _ => decide (Steady (heard trace)) && staysExternal (heard trace)) (by decide +kernel)
  simp only [Bool.and_eq_true, decide_eq_true_eq] at checked
  obtain ⟨steady, stays⟩ := checked
  obtain ⟨before, f, after, asked, external, kept⟩ := exists_of_staysExternal stays
  obtain ⟨g, member, leaves⟩ := always _ _ _ _ _ _ _ _ _ rfl rfl runs steady asked external
  rw [kept g member] at leaves
  cases leaves

/-- What a secondary's board is asked until it has started, and when it is brought to rest after that. -/
def startAndRest : Option (Trace runInterface × Trace runInterface) :=
  (performed (Worker.joinStart "main" (sampleStream side) (side.worker.counter + 1))
    { side.worker with counter := side.worker.counter + 3 } [.ack, .ack, .getRegister ⟨Register.control, 0⟩,
      .setRegister ⟨Register.control, 0⟩, .statusReply { status := Status.externalLocked }, .config { cycles := 1 },
      .ack, .ack, .ack] [("side", ⟨Event.start, "main", 1, true, false⟩)]).bind fun joined =>
  (performed Worker.abortBoard joined.2.2 [.ack, .ack] []).bind fun closed =>
  if joined.2.1.toBool && closed.2.1.toBool then some (joined.1, closed.1) else none

theorem startAndRest_runs {joining closing : Trace runInterface} (made : startAndRest = some (joining, closing)) :
    ∃ applied mid w', Task.Runs (Worker.joinStart "main" (sampleStream side) (side.worker.counter + 1))
        { side.worker with counter := side.worker.counter + 3 } joining (.ok applied) mid ∧
      Task.Runs Worker.abortBoard mid closing (.ok ()) w' := by
  obtain ⟨⟨_, joined, mid⟩, first, made⟩ := Option.bind_eq_some_iff.mp made
  obtain ⟨⟨_, closed, w'⟩, second, made⟩ := Option.bind_eq_some_iff.mp made
  cases joined with
  | error _ => cases made
  | ok applied =>
    cases closed with
    | error _ => cases made
    | ok _ =>
      cases made
      exact ⟨applied, mid, w', performed_runs first, performed_runs second⟩

/-- All calls of a run in which the bus does not get through to the primary. -/
def cutOff (refusal : BarrierError) (joining closing : Trace runInterface) : Trace runInterface :=
  ⟨.prune "side" 1, (0 : Nat)⟩ :: (joining ++
    ([.posting "main" ⟨Event.started, "side", 2, true, false⟩ (.error refusal)] ++ closing))

/-- The board has started, and the primary cannot be told. It stays on the external clock too. -/
theorem untold_stays : ∃ trace r w' before after f,
    Task.Runs (Worker.run 5 (sampleStream side)) side.worker trace r w' ∧ Steady (heard trace) ∧
      Started (heard trace) ∧ heard trace = before ++ .requested f :: after ∧ f.asksExternal ∧
      ∀ g, .requested g ∈ after → g.leavesExternal = false := by
  have checked : startAndRest.any fun parts =>
      let events := heard (cutOff (.bus "connecting to main") parts.1 parts.2)
      decide (Steady events) && staysExternal events := by decide +kernel
  obtain ⟨⟨joining, closing⟩, made, holds⟩ := (Option.any_eq_true _ _).mp checked
  simp only [Bool.and_eq_true, decide_eq_true_eq] at holds
  obtain ⟨steady, stays⟩ := holds
  obtain ⟨before, f, after, asked, external, kept⟩ := exists_of_staysExternal stays
  obtain ⟨applied, mid, w', joined, closed⟩ := startAndRest_runs made
  have runs : Task.Runs (Worker.run 5 (sampleStream side)) side.worker
      (cutOff (.bus "connecting to main") joining closing) (.error (.barrier (.bus "connecting to main"))) w' :=
    Worker.run_of_untold 0 _ rfl rfl rfl joined closed
  have started : Started (heard (cutOff (.bus "connecting to main") joining closing)) :=
    (Worker.started_iff_along joined ((posting_adds rfl).append
      ((Worker.abortBoard_part _ _ _ _ closed).spared (by decide)))).mpr rfl
  exact ⟨_, _, w', before, after, f, runs, steady, started, asked, external, kept⟩

end Team

end Sequencer
