import Sequencer.Proofs.WorkerSteps

/-!
What the run of a secondary promises: its messages say `ok` only after what they stand for, and after a
good `stopped` it ends well.
-/
namespace Sequencer

/-- The board has acknowledged `start`. -/
def Started (events : List RunEvent) : Prop :=
  ∃ cycles, exchange (.start cycles) .ack <:+: events

/-- The last status passed the verification of the stream; then the board left the clock of its
primary and was stopped. -/
def Completed (events : List RunEvent) : Prop :=
  ∃ (stream : Stream) (early : List RunEvent) (config applied : ConfigFrame) (status : StatusFrame)
    (register : RegisterFrame),
    events = .begun stream :: early ++ exchange .status (.statusReply status) ++
      exchange (.setRegister ⟨Register.control, applied.control.clear Control.manualMask⟩)
        (.setRegister register) ++ exchange .stop .ack ∧
    exchange (.config config) (.config applied) <:+: events ∧
    Worker.verify stream applied status = .ok ()

def Law.secondary (name primary : String) (base : Word) : Law := fun past x =>
  match x with
  | .posted recipient m => m.sender = name ∧ recipient = primary ∧
    (m.event = Event.started → m.counter = base + 2 ∧ (m.ok → Started past)) ∧
    (m.event = Event.stopped → m.counter = base + 3 ∧
      (∀ recipient other, .posted recipient other ∈ past → other.event ≠ Event.stopped) ∧
      (m.ok → Completed past))
  | .returned result => ∀ recipient m, .posted recipient m ∈ past → m.event = Event.stopped → m.ok →
    ∃ report, result = .ok report ∧ report.clockLost = m.warn
  | _ => True

namespace Worker
variable {law : Law} {w : Worker} {v v' : View} {name primary : String} {base : Word}

theorem secondary_isLenient : (Law.secondary name primary base).IsLenient where
  answered _ _ := trivial
  took _ _ := trivial
  requested _ _ _ := trivial

theorem joinStart_reaches (lenient : law.IsLenient) (may : ∀ past cycles, law past (.requested (.start cycles)))
    (ready : v.line = .ready) (s : Stream) (counter : Word) :
    Task.Reaches (runWatch law) fixed RunEvent.isUnposted (joinStart primary s counter)
      (fun applied v' => Started v'.events ∧ ∃ config,
        exchange (.config config) (.config applied) <:+: v'.events) w v := by
  have calm : ∀ x : RunEvent, x.isCalm → x.isUnposted := fun _ => RunEvent.isUnposted_of_isCalm
  have quiet : ∀ x : RunEvent, x.isQuiet → x.isUnposted := fun x h => calm x (RunEvent.isCalm_of_isQuiet h)
  refine .bind ((wait_reaches lenient ready primary Event.start counter).weaken calm) ?_
  intro _ w₁ v₁ _ grows₁ _
  refine .bind ((Task.Reaches.of_within (connectAndReset_within lenient) grows₁.1).weaken quiet) ?_
  intro _ w₂ v₂ _ grows₂ _
  refine .bind ((Task.Reaches.of_within (lockClock_within lenient) grows₂.1).weaken quiet) ?_
  intro _ w₃ v₃ _ grows₃ _
  refine .bind ((upload_reaches lenient s grows₃.1).weaken quiet) ?_
  intro applied w₄ v₄ _ grows₄ ⟨config, configured⟩
  refine .bind (asked_reaches grows₄.1 rfl (fun _ => rfl)
    (Client.start_spec lenient grows₄.1 applied.cycles (may _ _))) ?_
  rintro _ w₅ v₅ _ grows₅ ⟨f, _, command, rfl⟩
  obtain rfl := f.eq_ack command
  exact .pure rfl ⟨⟨applied.cycles, (List.suffix_append _ _).isInfix⟩, config, grows₅.keeps configured⟩

theorem awaitComplete_reaches (lenient : law.IsLenient) (ready : v.line = .ready) (polls : Nat)
    (s : Stream) (applied : ConfigFrame) :
    Task.Reaches (runWatch law) fixed RunEvent.isCalm (awaitComplete polls primary s base applied)
      (fun _ v' => ∃ mid status, v.Grows RunEvent.isCalm mid ∧ verify s applied status = .ok () ∧
        v' = mid.after .status (.statusReply status)) w v := by
  have ledger : Ledger [primary] (base + 3) (stoppedIn v.events) [] v :=
    ⟨ready, (List.append_nil _).symm, List.nodup_nil, by simp⟩
  refine .get (.bind (waitForEnd_reaches lenient _ polls ledger) ?_)
  rintro ending w₁ v₁ _ _ ⟨mid, growing, _, rfl⟩
  refine .bind (verified_reaches rfl s applied ending.status) ?_
  rintro _ w₂ v₂ _ _ ⟨rfl, success⟩
  exact .get (.pure rfl ⟨mid, ending.status, growing, success, rfl⟩)

theorem leaveClock_reaches (lenient : law.IsLenient) (ready : v.line = .ready) (applied : ConfigFrame) :
    Task.Reaches (runWatch law) fixed RunEvent.isTalk (leaveClock applied)
      (fun _ v' => ∃ register, v' = (v.after
        (.setRegister ⟨Register.control, applied.control.clear Control.manualMask⟩)
        (.setRegister register)).after .stop .ack) w v := by
  refine .bind (asked_reaches ready rfl (fun _ => rfl) (Client.setRegister_spec lenient ready _ _)) ?_
  rintro _ w₁ v₁ _ _ ⟨f, _, command, rfl⟩
  obtain ⟨register, rfl⟩ := f.eq_setRegister command
  refine (asked_reaches rfl rfl (fun _ => rfl) (Client.stop_spec lenient rfl)).imp ?_
  rintro _ v₂ ⟨f, _, command, rfl⟩
  obtain rfl := f.eq_ack command
  exact ⟨register, rfl⟩

/-- No `stopped` message has been posted. -/
def Pending (v : View) : Prop := ∀ recipient m, .posted recipient m ∈ v.events → m.event ≠ Event.stopped

theorem Pending.grows (pending : Pending v) (grows : v.Grows RunEvent.isUnposted v') : Pending v' := by
  obtain ⟨_, new, events, each⟩ := grows
  intro recipient m member
  rw [events] at member
  rcases List.mem_append.mp member with early | late
  · exact pending recipient m early
  · cases each _ late

theorem Pending.returns (pending : Pending v) (result : Except WorkerError Report) :
    Law.secondary name primary base v.events (.returned result) :=
  fun recipient m member stopped _ => absurd stopped (pending recipient m member)

/-- How a secondary's run ends: in order, and with a result that is true to its last message. -/
abbrev Settles (name primary : String) (base : Word) (w : Worker) (r : Except WorkerError Report)
    (w' : Worker) (v' : View) : Prop :=
  w'.fixed = w.fixed ∧ v'.line = .ready ∧ Law.secondary name primary base v'.events (.returned r)

/-- The second half, after the board was started. -/
theorem settle_spec {s : Stream} {applied : ConfigFrame} (named : w.name = name)
    (ready : v.line = .ready) (pending : Pending v) (begins : [.begun s] <+: v.events)
    (configured : ∃ config, exchange (.config config) (.config applied) <:+: v.events) (polls : Nat) :
    Task.wp (runWatch (Law.secondary name primary base))
      (do
        let result ← attempt (awaitComplete polls primary s base applied)
        let unlocked ← attempt (leaveClock applied)
        post primary Event.stopped (base + 3) (result.toBool && unlocked.toBool) (clockLostIn result)
        let _ ← (unlocked : Except WorkerError Unit)
        (result : Except WorkerError Report))
      (Settles name primary base w) w v := by
  have lenient : (Law.secondary name primary base).IsLenient := secondary_isLenient
  refine wp_attempt (Task.mono (awaitComplete_reaches lenient ready polls s applied) ?_)
  intro result w₁ v₁ ⟨same₁, grows₁, complete⟩
  refine wp_attempt (Task.mono (leaveClock_reaches lenient grows₁.1 applied) ?_)
  intro unlocked w₂ v₂ ⟨same₂, grows₂, left⟩
  have pending₂ : Pending v₂ := (pending.grows (grows₁.weaken fun _ => RunEvent.isUnposted_of_isCalm)).grows
    (grows₂.weaken fun _ => RunEvent.isUnposted_of_isTalk)
  have completed : (result.toBool && unlocked.toBool) = true → Completed v₂.events := by
    intro both
    obtain ⟨good, free⟩ := Bool.and_eq_true_iff.mp both
    cases result with
    | error e => cases good
    | ok report => cases unlocked with
    | error e => cases free
    | ok u =>
      obtain ⟨mid, status, ⟨_, early, grown, _⟩, success, rfl⟩ := complete report rfl
      obtain ⟨register, rfl⟩ := left u rfl
      obtain ⟨first, begun⟩ := begins
      obtain ⟨config, configured⟩ := configured
      refine ⟨s, first ++ early, config, applied, status, register, ?_, ?_, success⟩
      · simp [View.after, grown, ← begun]
      · exact grows₂.keeps (grows₁.keeps configured)
  have may : Law.secondary name primary base v₂.events (.posted primary
      ⟨Event.stopped, w₂.name, base + 3, result.toBool && unlocked.toBool, clockLostIn result⟩) :=
    ⟨(congrArg (·.1.name) (same₂.trans same₁)).trans named, rfl,
      fun same => absurd same.symm Event.started_ne_stopped, fun _ => ⟨rfl, pending₂, completed⟩⟩
  refine Task.seq (post_spec may) ?_ ?_
  · rintro _ w₃ v₃ ⟨_, rfl, rfl⟩
    have settled : ∀ r : Except WorkerError Report,
        ((result.toBool && unlocked.toBool) = true → ∃ report, r = .ok report ∧
          report.clockLost = clockLostIn result) →
        Law.secondary name primary base (v₂.events ++ [.posted primary ⟨Event.stopped, w₃.name, base + 3,
          result.toBool && unlocked.toBool, clockLostIn result⟩]) (.returned r) := by
      intro r truth recipient m member stopped ok
      rcases List.mem_append.mp member with early | late
      · exact absurd stopped (pending₂ recipient m early)
      · obtain ⟨_, rfl⟩ := RunEvent.posted.inj (List.mem_singleton.mp late)
        exact truth ok
    refine Task.wp_result (fun u free => ?_) fun e locked => ?_
    · refine ⟨same₂.trans same₁, grows₂.1, settled result fun both => ?_⟩
      cases result with
      | error e => cases both
      | ok report => exact ⟨report, rfl, rfl⟩
    · refine ⟨same₂.trans same₁, grows₂.1, settled _ fun both => ?_⟩
      rw [locked, Bool.and_eq_true_iff] at both
      cases both.2
  · intro e w₃ v₃ ⟨impossible, _⟩
    cases impossible

theorem runSecondary_spec {rest : List String} (leader : w.config.peers = primary :: rest)
    (named : w.name = name) (polls : Nat) (s : Stream) :
    Task.wp (runWatch (Law.secondary name primary base)) (runSecondary polls s base)
      (Settles name primary base w) w ⟨.ready, [.begun s]⟩ := by
  have lenient : (Law.secondary name primary base).IsLenient := secondary_isLenient
  have pending : Pending ⟨.ready, [.begun s]⟩ := by simp [Pending]
  unfold runSecondary
  refine Task.wp_get ?_
  rw [leader]
  dsimp only
  refine wp_attempt (Task.mono (joinStart_reaches lenient (fun _ _ => trivial) rfl s (base + 1)) ?_)
  intro started w₁ v₁ ⟨same₁, grows₁, joined⟩
  have named₁ : w₁.name = name := (congrArg (·.1.name) same₁).trans named
  have pending₁ := pending.grows grows₁
  have may : Law.secondary name primary base v₁.events
      (.posted primary ⟨Event.started, w₁.name, base + 2, started.toBool, false⟩) := by
    refine ⟨named₁, rfl, fun _ => ⟨rfl, fun ok => ?_⟩, fun same => absurd same Event.started_ne_stopped⟩
    cases started with
    | ok applied => exact (joined applied rfl).1
    | error e => cases ok
  refine Task.seq (post_spec may) ?_ ?_
  · rintro _ w₂ v₂ ⟨_, rfl, posted⟩
    have ready₂ : v₂.line = .ready := by
      rw [posted]
      exact grows₁.1
    have later : v₁.events <+: v₂.events := by
      rw [posted]
      exact List.prefix_append _ _
    have pending₂ : Pending v₂ := by
      rw [posted]
      intro recipient m member
      rcases List.mem_append.mp member with early | late
      · exact pending₁ recipient m early
      · obtain ⟨_, rfl⟩ := RunEvent.posted.inj (List.mem_singleton.mp late)
        exact Event.started_ne_stopped
    refine Task.wp_result (fun applied success => ?_) fun e failed => ?_
    · obtain ⟨config, configured⟩ := (joined applied success).2
      obtain ⟨_, new, events, _⟩ := grows₁
      have begins : [.begun s] <+: v₁.events := ⟨new, events.symm⟩
      refine Task.mono (settle_spec named₁ ready₂ pending₂ (begins.trans later)
        ⟨config, configured.trans later.isInfix⟩ polls) ?_
      intro r w' v' ⟨same, settled⟩
      exact ⟨same.trans same₁, settled⟩
    · exact ⟨same₁, ready₂, pending₂.returns _⟩
  · intro e w₂ v₂ ⟨impossible, _⟩
    cases impossible

/-- Every run of a secondary keeps its law. -/
theorem secondary_runs {rest : List String} (role : w.config.role = .secondary)
    (leader : w.config.peers = primary :: rest) {s : Stream} (named : s.name = w.name) (polls : Nat) :
    Task.wp (runWatch (Law.secondary w.name primary w.counter)) (run polls s)
      (fun r w' v' => w'.fixed = (w.config, w.counter + 3) ∧ v'.line = .ready ∧
        Law.secondary w.name primary w.counter v'.events (.returned r)) w ⟨.ready, [.begun s]⟩ := by
  have notPrimary : w.config.role ≠ .primary := by
    rw [role]
    decide
  have stays : ∀ (e e' : WorkerError) (v v' : View),
      Law.secondary w.name primary w.counter v.events (.returned (.error e)) →
      v.Grows RunEvent.isTalk v' →
      Law.secondary w.name primary w.counter v'.events (.returned (.error e')) := by
    intro e e' v v' failed ⟨_, new, events, each⟩ recipient m member stopped ok
    rw [events] at member
    rcases List.mem_append.mp member with early | late
    · obtain ⟨_, impossible, _⟩ := failed recipient m early stopped ok
      cases impossible
    · cases each _ late
  refine run_spec secondary_isLenient named (fun _ => id) (fun primary => absurd primary notPrimary)
    (fun w' same => ?_) stays
  have config : w'.config = w.config := congrArg (·.1) same
  rw [role]
  exact runSecondary_spec ((congrArg (·.peers) config).trans leader) (congrArg (·.name) config) polls s

end Worker

end Sequencer
