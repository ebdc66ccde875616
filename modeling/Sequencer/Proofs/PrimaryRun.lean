import Sequencer.Proofs.WorkerSteps

/-!
What the run of a primary promises: it starts its board after everyone has started, and it ends well
only with a good `stopped` of everyone.
-/
namespace Sequencer

/-- A run that may end well: what came before its one `stop`, which was acknowledged. -/
structure Concluded (peers : List String) (base : Word) (early : List RunEvent) (report : Report) :
    Prop where
  unstopped : ∀ x ∈ early, x ≠ .requested .stop
  one_of_each : ((stoppedIn early).map Message.sender).Perm peers
  met : ∀ m ∈ stoppedIn early, Awaited.IsMet ⟨m.sender, Event.stopped, base + 3⟩ m
  warnings : report.peerWarnings = ((stoppedIn early).filter Message.warn).map Message.sender

def Law.primary (name : String) (peers : List String) (base : Word) : Law := fun past x =>
  match x with
  | .requested (.start _) =>
    ∀ peer ∈ peers, ∃ m, .took m ∈ past ∧ Awaited.IsMet ⟨peer, Event.started, base + 2⟩ m
  | .posted _ m => m.sender = name
  | .returned (.ok report) => ∃ early,
    past = early ++ exchange .stop .ack ∧ Concluded peers base early report
  | _ => True

namespace Worker
variable {w : Worker} {v : View} {name : String} {peers rest : List String} {base : Word}

theorem primary_isLenient : (Law.primary name peers base).IsLenient where
  answered _ _ := trivial
  took _ _ := trivial
  requested past request notStart := by
    cases request with
    | start cycles => exact absurd rfl notStart
    | _ => trivial

/-- A run before its `stop`, with the `stopped` messages that were taken so far. -/
structure Open (peers : List String) (base : Word) (taken : List Message) (v : View) : Prop where
  ledger : Ledger peers (base + 3) [] taken v
  unstopped : ∀ x ∈ v.events, x ≠ .requested .stop

namespace Open
variable {taken taken' : List Message} {v v' : View} {kind : RunEvent → Bool}

theorem grows (opened : Open peers base taken v) (grows : v.Grows kind v')
    (noStop : ¬kind (.requested .stop)) (ledger : Ledger peers (base + 3) [] taken' v') :
    Open peers base taken' v' := by
  obtain ⟨_, new, events, each⟩ := grows
  refine ⟨ledger, fun x member => ?_⟩
  rw [events] at member
  rcases List.mem_append.mp member with early | late
  · exact opened.unstopped x early
  · rintro rfl
    exact noStop (each _ late)

/-- Events that neither stop the board nor take a `stopped` message. -/
theorem passes (opened : Open peers base taken v) (grows : v.Grows kind v')
    (noStop : ¬kind (.requested .stop)) (noStopped : ∀ m, kind (.took m) → m.event ≠ Event.stopped) :
    Open peers base taken v' := by
  refine opened.grows grows noStop ⟨grows.1, ?_, opened.ledger.senders, opened.ledger.met⟩
  obtain ⟨_, new, events, each⟩ := grows
  have none : stoppedIn new = [] := by
    refine List.filterMap_eq_nil_iff.mpr fun x member => ?_
    cases x with
    | took m => simp [noStopped m (each _ member)]
    | _ => rfl
  rw [events, stoppedIn_append, opened.ledger.stopped, none, List.append_nil]

theorem awaits (opened : Open peers base taken v) {peer : String} {counter : Word} {m : Message}
    (met : Awaited.IsMet ⟨peer, Event.started, counter⟩ m) :
    Open peers base taken ⟨v.line, v.events ++ [.took m]⟩ := by
  have other : m.event ≠ Event.stopped := by
    rw [met.event]
    exact Event.started_ne_stopped
  have none : stoppedIn [.took m] = [] := by simp [stoppedIn, other]
  refine opened.grows (took_grows opened.ledger.ready m) (by decide)
    ⟨opened.ledger.ready, ?_, opened.ledger.senders, opened.ledger.met⟩
  rw [stoppedIn_append, opened.ledger.stopped, none, List.append_nil]

theorem starts (opened : Open peers base taken v) {cycles : Word} {f : Frame} :
    Open peers base taken (v.after (.start cycles) f) := by
  refine ⟨⟨rfl, ?_, opened.ledger.senders, opened.ledger.met⟩, fun x member => ?_⟩
  · have none : stoppedIn (exchange (.start cycles) f) = [] := rfl
    rw [View.after, stoppedIn_append, opened.ledger.stopped, none, List.append_nil]
  · rcases List.mem_append.mp member with early | late
    · exact opened.unstopped x early
    · simp only [exchange, List.mem_cons, List.not_mem_nil, or_false] at late
      rcases late with rfl | rfl <;> simp

end Open

variable {law : Law} {taken : List Message}

theorem awaitStarted_reaches (lenient : law.IsLenient) (counter : Word)
    (opened : Open peers base taken v) :
    Task.Reaches (runWatch law) fixed RunEvent.isCalm
      (rest.forM fun peer => do let _ ← wait peer Event.started counter) (fun _ v' =>
        Open peers base taken v' ∧ ∀ peer ∈ rest, ∃ m, .took m ∈ v'.events ∧
          Awaited.IsMet ⟨peer, Event.started, counter⟩ m) w v := by
  induction rest generalizing w v with
  | nil => exact .pure opened.ledger.ready ⟨opened, by simp⟩
  | cons peer rest ih =>
    have waiting : Task.Reaches (runWatch law) fixed RunEvent.isCalm
        (do let _ ← wait peer Event.started counter) (fun _ v' => Open peers base taken v' ∧
          ∃ m, .took m ∈ v'.events ∧ Awaited.IsMet ⟨peer, Event.started, counter⟩ m) w v := by
      refine .bind (wait_reaches lenient opened.ledger.ready peer Event.started counter) ?_
      rintro m w' v' _ _ ⟨met, rfl⟩
      exact .pure opened.ledger.ready ⟨opened.awaits met, m, by simp, met⟩
    refine .bind waiting fun _ w' v' _ _ ⟨opened', m, took, met⟩ => ?_
    refine Task.mono (ih opened') ?_
    intro r w'' v'' ⟨same, grows, others⟩
    refine ⟨same, grows, fun u success => ?_⟩
    obtain ⟨opened'', each⟩ := others u success
    refine ⟨opened'', fun other member => ?_⟩
    rcases List.mem_cons.mp member with rfl | member
    · exact ⟨m, grows.mem took, met⟩
    · exact each other member

/-- What is known while the last messages come in, as long as there was no failure. -/
def Gathering (peers : List String) (base : Word) (senders : List String)
    (state : List String × Option WorkerError) (v : View) : Prop :=
  state.2 = none → ∃ all, Ledger peers (base + 3) [] all v ∧ all.map Message.sender = senders ∧
    state.1 = (all.filter Message.warn).map Message.sender

theorem gatherNext_reaches (lenient : law.IsLenient) {senders : List String} {peer : String}
    {state : List String × Option WorkerError} (known : peer ∈ peers) (missing : peer ∉ senders)
    (ready : v.line = .ready) (sofar : Gathering peers base senders state v) :
    Task.Reaches (runWatch law) fixed RunEvent.isCalm (gatherNext (base + 3) state peer)
      (fun state' v' => Gathering peers base (senders ++ [peer]) state' v') w v := by
  refine .bind (attempt_reaches (wait_reaches lenient ready peer Event.stopped (base + 3))) ?_
  rintro (e | m) w' v' _ grows waited
  · refine .pure grows.1 fun none => ?_
    cases failed : state.2 <;> simp [failed] at none
  · obtain ⟨met, rfl⟩ := waited m rfl
    refine .pure ready fun none => ?_
    obtain ⟨all, ledger, rfl, warnings⟩ := sofar none
    refine ⟨all ++ [m], ledger.take known missing met, ?_, ?_⟩
    · rw [List.map_append, List.map_singleton, met.sender]
    · dsimp only
      rw [List.filter_append, List.map_append, warnings]
      split
      · rename_i warn
        rw [List.filter_cons_of_pos warn, List.filter_nil, List.map_singleton, met.sender]
      · rename_i silent
        rw [List.filter_cons_of_neg silent, List.filter_nil, List.map_nil, List.append_nil]

/-- The last messages, one after the other; without a failure everyone's is there. -/
theorem gather_reaches (lenient : law.IsLenient) {senders : List String}
    {state : List String × Option WorkerError} (known : ∀ peer ∈ rest, peer ∈ peers)
    (nodup : (senders ++ rest).Nodup) (ready : v.line = .ready)
    (sofar : Gathering peers base senders state v) :
    Task.Reaches (runWatch law) fixed RunEvent.isCalm (rest.foldlM (gatherNext (base + 3)) state)
      (fun state' v' => Gathering peers base (senders ++ rest) state' v') w v := by
  induction rest generalizing senders state w v with
  | nil =>
    rw [List.append_nil]
    exact .pure ready sofar
  | cons peer rest ih =>
    have missing : peer ∉ senders := fun found =>
      (List.nodup_append.mp nodup).2.2 peer found peer List.mem_cons_self rfl
    rw [List.append_cons] at nodup ⊢
    refine .bind (gatherNext_reaches lenient (known peer List.mem_cons_self) missing ready sofar) ?_
    intro state' w' v' _ grows sofar'
    exact ih (fun other member => known other (List.mem_cons_of_mem _ member)) nodup grows.1 sofar'

/-- The messages that came early and those that were waited for make one of every peer. -/
theorem gatherStopped_reaches (lenient : law.IsLenient) (unique : peers.Nodup)
    (ledger : Ledger peers (base + 3) [] taken v) :
    Task.Reaches (runWatch law) fixed RunEvent.isCalm (gatherStopped peers (base + 3) taken)
      (fun result v' => result.2 = none → ∃ all, Ledger peers (base + 3) [] all v' ∧
        (all.map Message.sender).Perm peers ∧
        result.1 = (all.filter Message.warn).map Message.sender) w v := by
  have missing (peer : String) : peer ∈ peers.filter (fun peer => !(taken.any fun m => m.sender == peer)) ↔
      peer ∈ peers ∧ peer ∉ taken.map Message.sender := by
    simp
  have nodup : (taken.map Message.sender ++
      peers.filter fun peer => !(taken.any fun m => m.sender == peer)).Nodup := by
    refine List.nodup_append.mpr ⟨ledger.senders, unique.filter _, ?_⟩
    rintro a early b late rfl
    exact ((missing a).mp late).2 early
  have initial : Gathering peers base (taken.map Message.sender)
      ((taken.filter Message.warn).map Message.sender, none) v :=
    fun _ => ⟨taken, ledger, rfl, rfl⟩
  refine (gather_reaches lenient (fun peer member => ((missing peer).mp member).1) nodup
    ledger.ready initial).imp fun result v' gathered none => ?_
  obtain ⟨all, ledger', senders, warnings⟩ := gathered none
  refine ⟨all, ledger', ?_, warnings⟩
  rw [senders, List.perm_ext_iff_of_nodup nodup unique]
  intro peer
  rw [List.mem_append, missing]
  constructor
  · rintro (early | late)
    · obtain ⟨m, member, rfl⟩ := List.mem_map.mp early
      exact (ledger.met m member).1
    · exact late.1
  · intro known
    by_cases early : peer ∈ taken.map Message.sender
    · exact .inl early
    · exact .inr ⟨known, early⟩

theorem runPrimary_reaches (unique : peers.Nodup) (followers : w.config.peers = peers)
    (named : w.name = name) (polls : Nat) (s : Stream) (opened : Open peers base [] v) :
    Task.Reaches (runWatch (Law.primary name peers base)) fixed (fun _ => true)
      (runPrimary polls s base) (fun report v' => ∃ early,
        v'.events = early ++ exchange .stop .ack ∧
        Concluded peers base early report) w v := by
  have lenient : (Law.primary name peers base).IsLenient := primary_isLenient
  have preparing : Task.Within (runWatch (Law.primary name peers base)) fixed RunEvent.isQuiet
      (attempt do connectAndReset; upload s) :=
    attempt_within (.bind (connectAndReset_within lenient) fun _ => upload_within lenient s)
  unfold runPrimary
  refine .get ?_
  dsimp only
  rw [followers]
  refine .bind ((Task.Reaches.of_within preparing opened.ledger.ready).weaken fun _ _ => rfl) ?_
  intro prepared w₁ v₁ same₁ _ quiet₁
  have opened₁ := opened.passes quiet₁ (by decide) (by simp [RunEvent.isQuiet])
  have named₁ : w₁.name = name := (congrArg (·.1.name) same₁).trans named
  refine .bind ((postAll_reaches opened₁.ledger.ready fun _ _ => named₁).growing.weaken fun _ _ => rfl) ?_
  rintro _ w₂ v₂ _ _ ⟨posted₂, _⟩
  have opened₂ := opened₁.passes posted₂ (by decide) (by simp [RunEvent.isPost])
  refine .result opened₂.ledger.ready fun applied _ => ?_
  refine .bind ((awaitStarted_reaches lenient _ opened₂).weaken fun _ _ => rfl) ?_
  rintro _ w₃ v₃ _ _ ⟨opened₃, started⟩
  have starting : Task.Reaches (runWatch (Law.primary name peers base)) fixed RunEvent.isTalk
      (onBoard (Client.start applied.cycles)) _ w₃ v₃ :=
    asked_reaches opened₃.ledger.ready rfl (fun _ => rfl)
      (Client.start_spec lenient opened₃.ledger.ready applied.cycles started)
  refine .bind (starting.weaken fun _ _ => rfl) ?_
  rintro _ w₄ v₄ _ _ ⟨f, _, _, rfl⟩
  refine .get (.bind ((waitForEnd_reaches lenient _ polls opened₃.starts.ledger).weaken fun _ _ => rfl) ?_)
  rintro ending w₅ v₅ _ _ ⟨mid, growing, ledger, rfl⟩
  have polled : mid.Grows RunEvent.isQuiet (mid.after .status (.statusReply ending.status)) :=
    View.after_grows rfl rfl
  have opened₅ := (opened₃.starts.grows growing (by decide) ledger).grows polled (by decide)
    (ledger.quiet polled)
  refine .bind ((gatherStopped_reaches lenient unique opened₅.ledger).growing.weaken fun _ _ => rfl) ?_
  rintro ⟨warned, failure⟩ w₆ v₆ _ _ ⟨growing₆, gathered⟩
  have stopping : Task.Reaches (runWatch (Law.primary name peers base)) fixed RunEvent.isTalk
      (attempt (onBoard Client.stop)) _ w₆ v₆ :=
    attempt_reaches (asked_reaches growing₆.1 rfl (fun _ => rfl) (Client.stop_spec lenient growing₆.1))
  refine .bind (stopping.weaken fun _ _ => rfl) ?_
  intro stopped w₇ v₇ _ growing₇ acknowledged
  dsimp only
  split
  · exact .throw_bind growing₇.1
  · rename_i none
    obtain ⟨all, ledger₆, everyone, warnings⟩ := gathered (by cases failure <;> simp_all)
    have opened₆ := opened₅.grows growing₆ (by decide) ledger₆
    refine .result growing₇.1 fun u success => ?_
    obtain ⟨f, _, command, rfl⟩ := acknowledged u success
    obtain rfl := f.eq_ack command
    refine .bind (verified_reaches rfl s applied ending.status) ?_
    rintro _ w₈ v₈ _ _ ⟨rfl, _⟩
    have early : stoppedIn v₆.events = all := ledger₆.stopped
    refine .get (.pure rfl ⟨v₆.events, rfl, opened₆.unstopped, ?_, ?_, ?_⟩)
    · rw [early]
      exact everyone
    · rw [early]
      exact fun m member => (ledger₆.met m member).2
    · rw [early]
      exact warnings

/-- Every run of a primary keeps its law. -/
theorem primary_runs (role : w.config.role = .primary) (unique : w.config.peers.Nodup)
    {s : Stream} (named : s.name = w.name) (polls : Nat) :
    Task.wp (runWatch (Law.primary w.name w.config.peers w.counter)) (run polls s)
      (fun r w' v' => w'.fixed = (w.config, w.counter + 3) ∧ v'.line = .ready ∧
        Law.primary w.name w.config.peers w.counter v'.events (.returned r)) w ⟨.ready, [.begun s]⟩ := by
  have opened : Open w.config.peers w.counter [] ⟨.ready, [.begun s]⟩ :=
    ⟨⟨rfl, rfl, List.nodup_nil, by simp⟩, by simp⟩
  have all : ∀ x : RunEvent, (fun _ : RunEvent => true) x := fun _ => rfl
  refine run_spec primary_isLenient named (fun x _ => all x) (fun _ => ⟨fun x _ => all x, fun _ _ => rfl⟩)
    (fun w' same => ?_) fun _ _ _ _ _ _ => trivial
  have config : w'.config = w.config := congrArg (·.1) same
  rw [role]
  refine Task.mono (runPrimary_reaches unique (congrArg (·.peers) config) (congrArg (·.name) config)
    polls s opened) ?_
  rintro (e | report) w'' v' ⟨same', grows, concluded⟩
  · exact ⟨same', grows.1, trivial⟩
  · exact ⟨same', grows.1, concluded report rfl⟩

end Worker

end Sequencer
