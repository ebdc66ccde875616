import Sequencer.Proofs.Conversation

/-!
What the parts of a worker's run do, as far as both roles share them.
-/
namespace Sequencer

theorem Event.started_ne_stopped : Event.started ≠ Event.stopped := by decide

/-- The `stopped` messages that were taken. -/
def stoppedIn (events : List RunEvent) : List Message :=
  events.filterMap fun x => match x with
    | .took m => if m.event = Event.stopped then some m else none
    | _ => none

@[simp] theorem stoppedIn_append (a b : List RunEvent) :
    stoppedIn (a ++ b) = stoppedIn a ++ stoppedIn b := List.filterMap_append

theorem stoppedIn_talk {events : List RunEvent} (talk : ∀ x ∈ events, x.isTalk) :
    stoppedIn events = [] := by
  refine List.filterMap_eq_nil_iff.mpr fun x member => ?_
  have isTalk := talk x member
  cases x <;> simp_all [RunEvent.isTalk]

namespace Worker
variable {α β : Type} {law : Law} {w : Worker} {v : View}

/-- What no run changes but at its begin. -/
def fixed (w : Worker) : BoardConfig × Word := (w.config, w.counter)

theorem wp_attempt {p : RunM α} {f : Except WorkerError α → RunM β}
    {Q : Except WorkerError β → Worker → View → Prop}
    (holds : Task.wp (runWatch law) p (fun r w' v' => Task.wp (runWatch law) (f r) Q w' v') w v) :
    Task.wp (runWatch law) (attempt p >>= f) Q w v := by
  have attempted : Task.wp (runWatch law) (attempt p)
      (fun r w' v' => ∃ result, r = .ok result ∧ Task.wp (runWatch law) (f result) Q w' v') w v := by
    unfold Task.wp at holds ⊢
    refine Program.wp_bind.mpr (Program.wp_mono (fun out v' next => ?_) holds)
    exact ⟨out.1, rfl, next⟩
  refine Task.seq attempted ?_ ?_
  · intro result w' v' ⟨_, same, next⟩
    rw [Except.ok.inj same]
    exact next
  · intro e w' v' ⟨_, impossible, _⟩
    cases impossible

theorem onBoard_spec {p : LinkM α} {Q : Except LinkError α → Client → View → Prop}
    (spec : Task.wp (linkWatch law) p Q w.client v) :
    Task.wp (runWatch law) (onBoard p) (fun r w' v' => ∃ result client, Q result client v' ∧
      w' = { w with client } ∧ r = result.mapError (.link w.name)) w v := by
  unfold onBoard
  refine Task.wp_get (Task.wp_lift (wp_ofLink (Program.wp_mono (fun out v' post => ?_) spec)))
  obtain ⟨result, client⟩ := out
  refine Task.wp_set ?_
  cases result with
  | ok a => exact ⟨.ok a, client, post, rfl, rfl⟩
  | error e => exact ⟨.error e, client, post, rfl, rfl⟩

theorem onBoard_within {p : LinkM α} {kind : RunEvent → Bool}
    (within : Task.Within (linkWatch law) (fun _ => ()) kind p) :
    Task.Within (runWatch law) fixed kind (onBoard p) := by
  intro w v ready
  refine Task.mono (onBoard_spec (within w.client v ready)) ?_
  rintro r w' v' ⟨result, client, ⟨_, grows⟩, rfl, rfl⟩
  exact ⟨rfl, grows⟩

/-- A request to the board, from a worker. -/
theorem asked_reaches {p : LinkM α} {request : Frame} {expected : Command} {allowed : List LinkState}
    {value : Frame → α} {kind : RunEvent → Bool} (ready : v.line = .ready)
    (kind_request : kind (.requested request)) (kind_answer : ∀ answer, kind (.answered answer))
    (spec : Task.wp (linkWatch law) p (v.Asks request expected allowed value w.client) w.client v) :
    Task.Reaches (runWatch law) fixed kind (onBoard p) (fun a v' => ∃ f, a = value f ∧
      f.command = expected ∧ v' = v.after request f) w v := by
  refine Task.mono (onBoard_spec spec) ?_
  rintro r w' v' ⟨result, client, ⟨outcome, asked, rfl⟩, rfl, rfl⟩
  refine ⟨rfl, asked.grows ready kind_request kind_answer, fun a success => ?_⟩
  cases asked with
  | missed missed => cases success
  | answered could linked command heard => exact ⟨_, (Except.ok.inj success).symm, command, heard⟩

theorem asks_within {p : LinkM α} {request : Frame} {expected : Command} {allowed : List LinkState}
    {value : Frame → α} {kind : RunEvent → Bool} (kind_request : kind (.requested request))
    (kind_answer : ∀ answer, kind (.answered answer)) (spec : ∀ c v, v.line = .ready →
      Task.wp (linkWatch law) p (v.Asks request expected allowed value c) c v) :
    Task.Within (runWatch law) fixed kind (onBoard p) :=
  onBoard_within (Client.asked_within kind_request kind_answer spec)

theorem attempt_within {p : RunM α} {kind : RunEvent → Bool}
    (within : Task.Within (runWatch law) fixed kind p) :
    Task.Within (runWatch law) fixed kind (attempt p) := by
  intro w v ready
  unfold Task.wp
  exact Program.wp_bind.mpr (Program.wp_mono (fun out v' post => post) (within w v ready))

theorem attempt_reaches {p : RunM α} {kind : RunEvent → Bool} {good : α → View → Prop}
    (reaches : Task.Reaches (runWatch law) fixed kind p good w v) :
    Task.Reaches (runWatch law) fixed kind (attempt p)
      (fun result v' => ∀ a, result = .ok a → good a v') w v := by
  refine Program.wp_bind.mpr (Program.wp_mono (fun out v' post => ?_) reaches)
  refine ⟨post.1, post.2.1, ?_⟩
  intro _ success
  rw [← Except.ok.inj success]
  exact post.2.2

/-- A call of which no event is heard. -/
theorem ask_within {c : RunCall} {kind : RunEvent → Bool}
    (unheard : ∀ line answer, Line.hear line c answer = (line, [])) :
    Task.Within (runWatch law) fixed kind (ask c) := by
  intro w v ready (answer : c.Answer) _
  have heard : v.line.hear c answer = (v.line, []) := unheard _ _
  refine ⟨?_, rfl, ?_⟩
  · show law.allows v.events (v.line.hear c answer).2
    rw [heard]
    trivial
  · show v.Grows kind (v.hear (v.line.hear c answer))
    rw [heard]
    exact .silent ready

theorem fail_within {fault : RunFault} {kind : RunEvent → Bool} :
    Task.Within (runWatch law) fixed kind (fail fault : RunM α) :=
  .get fun _ => .throw

theorem pause_within {kind : RunEvent → Bool} : Task.Within (runWatch law) fixed kind pause :=
  .get fun _ => ask_within fun _ _ => rfl

theorem verified_reaches {kind : RunEvent → Bool} (ready : v.line = .ready) (s : Stream)
    (applied : ConfigFrame) (status : StatusFrame) :
    Task.Reaches (runWatch law) fixed kind (verified s applied status)
      (fun _ v' => v' = v ∧ verify s applied status = .ok ()) w v := by
  unfold verified
  split
  · rename_i success
    exact .pure ready ⟨rfl, success⟩
  · exact .throw ready

theorem post_spec {peer event : String} {counter : Word} {ok warn : Bool}
    (may : law v.events (.posted peer ⟨event, w.name, counter, ok, warn⟩)) :
    Task.wp (runWatch law) (post peer event counter ok warn) (fun r w' v' => r = .ok () ∧ w' = w ∧
      v' = ⟨v.line, v.events ++ [.posted peer ⟨event, w.name, counter, ok, warn⟩]⟩) w v := by
  refine Task.wp_get (Task.wp_ask fun (answer : Except BarrierError Unit) delivered => ?_)
  obtain rfl : answer = .ok () := delivered
  exact ⟨⟨may, trivial⟩, rfl, rfl, rfl⟩

theorem post_reaches {peer event : String} {counter : Word} {ok warn : Bool} (ready : v.line = .ready)
    (may : law v.events (.posted peer ⟨event, w.name, counter, ok, warn⟩)) :
    Task.Reaches (runWatch law) fixed RunEvent.isPost (post peer event counter ok warn) (fun _ _ => True) w v := by
  refine Task.mono (post_spec may) ?_
  rintro r w' v' ⟨rfl, rfl, rfl⟩
  exact ⟨rfl, ⟨ready, _, rfl, by simp [RunEvent.isPost]⟩, fun _ _ => trivial⟩

theorem took_grows (ready : v.line = .ready) (m : Message) :
    v.Grows RunEvent.isCalm ⟨v.line, v.events ++ [.took m]⟩ :=
  ⟨ready, [.took m], rfl, by simp [RunEvent.isCalm]⟩

theorem wait_reaches (lenient : law.IsLenient) (ready : v.line = .ready) (peer event : String)
    (counter : Word) :
    Task.Reaches (runWatch law) fixed RunEvent.isCalm (wait peer event counter)
      (fun m v' => Awaited.IsMet ⟨peer, event, counter⟩ m ∧
        v' = ⟨v.line, v.events ++ [.took m]⟩) w v := by
  refine .get (Task.wp_ask fun (answer : Except BarrierError Message) possible => ?_)
  cases answer with
  | ok m =>
    refine ⟨⟨lenient.took _ _, trivial⟩, rfl, took_grows ready m, ?_⟩
    intro _ success
    rw [← Except.ok.inj success]
    exact ⟨possible m rfl, rfl⟩
  | error e =>
    exact ⟨trivial, rfl, .silent ready, fun _ impossible => by cases impossible⟩

/-- A look at the mailbox. -/
theorem look_reaches (lenient : law.IsLenient) (ready : v.line = .ready) (name : String)
    (a : Awaited) :
    Task.Reaches (runWatch law) fixed RunEvent.isCalm (ask (.poll name a))
      (fun answer v' => match answer with
        | some (.ok m) => a.IsMet m ∧ v' = ⟨v.line, v.events ++ [.took m]⟩
        | _ => v' = v) w v := by
  have unheard : v.hear (v.line, []) = v := v.hear_nothing
  intro (answer : Option (Except BarrierError Message)) possible
  match answer, possible with
  | none, _ =>
    refine ⟨trivial, rfl, .silent ready, ?_⟩
    intro _ success
    rw [← Except.ok.inj success]
    exact unheard
  | some (.error e), _ =>
    refine ⟨trivial, rfl, .silent ready, ?_⟩
    intro _ success
    rw [← Except.ok.inj success]
    exact unheard
  | some (.ok m), possible =>
    refine ⟨⟨lenient.took _ _, trivial⟩, rfl, took_grows ready m, ?_⟩
    intro _ success
    rw [← Except.ok.inj success]
    exact ⟨possible m rfl, rfl⟩

section
variable (lenient : law.IsLenient)
include lenient

theorem poll_within :
    Task.Within (runWatch law) fixed RunEvent.isQuiet (onBoard (Client.poll false)) :=
  asks_within rfl (fun _ => rfl) fun _ _ ready => Client.poll_spec lenient ready

theorem reset_within : Task.Within (runWatch law) fixed RunEvent.isQuiet (onBoard Client.reset) :=
  asks_within rfl (fun _ => rfl) fun _ _ ready => Client.reset_spec lenient ready

theorem connectAndReset_within :
    Task.Within (runWatch law) fixed RunEvent.isQuiet connectAndReset := by
  have opening : Task.Within (runWatch law) fixed RunEvent.isQuiet (onBoard Client.openBoard) :=
    asks_within rfl (fun _ => rfl) fun _ _ ready => Client.openBoard_spec lenient ready
  have attaching {x : RunEvent} : x.isTalkOf [] → x.isQuiet :=
    RunEvent.isQuiet_of_isTalkOf (by decide) (by decide)
  unfold connectAndReset
  refine .get fun w => ?_
  dsimp only
  split
  · refine .bind (ask_within fun _ _ => rfl) fun answer => ?_
    split
    · exact .bind .throw fun _ => reset_within lenient
    · refine .bind (onBoard_within ((Client.attach_talks _).within fun _ => attaching)) fun _ => ?_
      exact .bind opening fun _ => reset_within lenient
  · exact reset_within lenient

theorem awaitLock_within (polls : Nat) :
    Task.Within (runWatch law) fixed RunEvent.isQuiet (awaitLock polls) := by
  induction polls with
  | zero => exact fail_within
  | succ polls ih =>
    unfold awaitLock
    refine .bind (poll_within lenient) fun status => ?_
    split
    · exact .pure
    · exact .bind pause_within fun _ => ih

theorem lockClock_within : Task.Within (runWatch law) fixed RunEvent.isQuiet lockClock := by
  unfold lockClock
  refine .bind (asks_within rfl (fun _ => rfl) fun _ _ ready =>
    Client.getRegister_spec lenient ready _) fun control => ?_
  refine .bind (asks_within rfl (fun _ => rfl) fun _ _ ready =>
    Client.setRegister_spec lenient ready _ _) fun _ => ?_
  exact awaitLock_within lenient lockPolls

/-- A successful upload has had the configuration applied that it returns. -/
theorem upload_reaches (s : Stream) (ready : v.line = .ready) :
    Task.Reaches (runWatch law) fixed RunEvent.isQuiet (upload s) (fun applied v' => ∃ config,
      exchange (.config config) (.config applied) <:+: v'.events) w v := by
  unfold upload
  refine .result ready fun config _ => .modify rfl ?_
  refine .bind (asked_reaches ready rfl (fun _ => rfl) (Client.configure_spec lenient ready config)) ?_
  rintro _ w' v' _ _ ⟨f, rfl, command, rfl⟩
  obtain ⟨applied, rfl⟩ := f.eq_config command
  refine .bind (.of_within (onBoard_within ((Client.write_talks lenient s.bytes).within fun _ =>
    RunEvent.isQuiet_of_isTalkOf (by decide) (by decide))) rfl) ?_
  intro _ w'' v'' _ grows _
  exact .pure grows.1 ⟨config, grows.keeps (List.suffix_append _ _).isInfix⟩

theorem upload_within (s : Stream) : Task.Within (runWatch law) fixed RunEvent.isQuiet (upload s) :=
  Task.Reaches.within fun _ _ ready => ⟨_, upload_reaches lenient s ready⟩

theorem abortBoard_within : Task.Within (runWatch law) fixed RunEvent.isTalk abortBoard := by
  have ignoring {p : RunM Unit} (within : Task.Within (runWatch law) fixed RunEvent.isTalk p) :
      Task.Within (runWatch law) fixed RunEvent.isTalk (ignoringErrors p) :=
    .bind (attempt_within within) fun _ => .pure
  have quiet {α : Type} {p : RunM α} (within : Task.Within (runWatch law) fixed RunEvent.isQuiet p) :
      Task.Within (runWatch law) fixed RunEvent.isTalk p :=
    within.weaken fun _ => RunEvent.isTalk_of_isQuiet
  unfold abortBoard
  refine .get fun w => ?_
  split
  · exact .pure
  · split
    · exact onBoard_within ((Client.abort_talks lenient).within fun _ => RunEvent.isTalk_of_isTalkOf)
    · refine .bind (ignoring (asks_within rfl (fun _ => rfl) fun _ _ ready =>
        Client.stop_spec lenient ready)) fun _ => ?_
      refine ignoring (.bind (quiet (reset_within lenient)) fun _ => ?_)
      exact .bind (quiet (poll_within lenient)) fun _ => .pure

end

/-- The `stopped` messages of a run so far: `prior` from before, then at most one of every peer. -/
structure Ledger (peers : List String) (counter : Word) (prior taken : List Message) (v : View) :
    Prop where
  ready : v.line = .ready
  stopped : stoppedIn v.events = prior ++ taken
  senders : (taken.map Message.sender).Nodup
  met : ∀ m ∈ taken, m.sender ∈ peers ∧ Awaited.IsMet ⟨m.sender, Event.stopped, counter⟩ m

namespace Ledger
variable {peers rest : List String} {counter : Word} {prior taken : List Message} {v v' : View}

theorem quiet (ledger : Ledger peers counter prior taken v) (grows : v.Grows RunEvent.isQuiet v') :
    Ledger peers counter prior taken v' := by
  obtain ⟨ready, new, events, each⟩ := grows
  refine ⟨ready, ?_, ledger.senders, ledger.met⟩
  rw [events, stoppedIn_append, ledger.stopped,
    stoppedIn_talk fun x member => RunEvent.isTalk_of_isQuiet (each x member), List.append_nil]

theorem take (ledger : Ledger peers counter prior taken v) {peer : String} {m : Message}
    (known : peer ∈ peers) (missing : peer ∉ taken.map Message.sender)
    (met : Awaited.IsMet ⟨peer, Event.stopped, counter⟩ m) :
    Ledger peers counter prior (taken ++ [m]) ⟨v.line, v.events ++ [.took m]⟩ := by
  refine ⟨ledger.ready, ?_, ?_, fun other member => ?_⟩
  · have new : stoppedIn [.took m] = [m] := by simp [stoppedIn, met.event]
    rw [stoppedIn_append, ledger.stopped, new, List.append_assoc]
  · rw [List.map_append, List.nodup_append]
    refine ⟨ledger.senders, List.pairwise_singleton _ _, fun a early b late same => ?_⟩
    rw [List.map_singleton, List.mem_singleton, met.sender] at late
    rw [same, late] at early
    exact missing early
  · rcases List.mem_append.mp member with early | late
    · exact ledger.met other early
    · obtain rfl := List.mem_singleton.mp late
      refine ⟨met.sender ▸ known, ?_⟩
      rw [met.sender]
      exact met

end Ledger

section
variable {peers rest : List String} {counter : Word} {prior taken : List Message}

theorem collectStopped_reaches (lenient : law.IsLenient) (known : ∀ peer ∈ rest, peer ∈ peers)
    (ledger : Ledger peers counter prior taken v) :
    Task.Reaches (runWatch law) fixed RunEvent.isCalm (collectStopped rest counter taken)
      (Ledger peers counter prior) w v := by
  induction rest generalizing taken w v with
  | nil => exact .pure ledger.ready ledger
  | cons peer rest ih =>
    refine .bind (?_ : Task.Reaches _ _ _ _ (Ledger peers counter prior) w v) fun taken' w' v' _ _ ledger' =>
      ih (fun other member => known other (List.mem_cons_of_mem _ member)) ledger'
    dsimp only
    split
    · exact .pure ledger.ready ledger
    · rename_i absent
      have missing : peer ∉ taken.map Message.sender := by simpa using absent
      refine .get (.bind (look_reaches lenient ledger.ready _ _) ?_)
      rintro (_ | e | m) w' v' _ _ looked
      · obtain rfl : v' = v := looked
        exact .pure ledger.ready ledger
      · obtain rfl : v' = v := looked
        exact .throw ledger.ready
      · obtain ⟨met, rfl⟩ := looked
        exact .pure ledger.ready (ledger.take (known peer List.mem_cons_self) missing met)

theorem checkAborted_within : Task.Within (runWatch law) fixed RunEvent.isQuiet checkAborted := by
  refine .bind (ask_within fun _ _ => rfl) fun answer => ?_
  split
  · exact fail_within
  · exact .pure

theorem checkLimit_within (begun : Nat) (limit : Option Nat) :
    Task.Within (runWatch law) fixed RunEvent.isQuiet (checkLimit begun limit) := by
  unfold checkLimit
  split
  · refine .bind (ask_within fun _ _ => rfl) fun answer => ?_
    split
    · exact fail_within
    · exact .pure
  · exact .pure

/-- The last thing before a good end is the status that says so. -/
theorem awaitEnd_reaches (lenient : law.IsLenient) (begun : Nat) (limit : Option Nat) (polls : Nat)
    (clockLost : Bool) (ledger : Ledger peers counter prior taken v) :
    Task.Reaches (runWatch law) fixed RunEvent.isCalm
      (awaitEnd begun limit peers counter polls clockLost taken) (fun ending v' =>
        ∃ mid, v.Grows RunEvent.isCalm mid ∧ Ledger peers counter prior ending.taken mid ∧
          v' = mid.after .status (.statusReply ending.status)) w v := by
  have calm : ∀ x : RunEvent, x.isQuiet → x.isCalm := fun _ => RunEvent.isCalm_of_isQuiet
  induction polls generalizing clockLost taken w v with
  | zero => exact fun (answer : Empty) => answer.elim
  | succ polls ih =>
    unfold awaitEnd
    refine .bind ((Task.Reaches.of_within checkAborted_within ledger.ready).weaken calm) ?_
    intro _ w₁ v₁ _ grows₁ quiet₁
    refine .bind (collectStopped_reaches lenient (fun _ => id) (ledger.quiet quiet₁)) ?_
    intro taken' w₂ v₂ _ grows₂ ledger₂
    refine .bind ((Task.Reaches.of_within (checkLimit_within _ _) ledger₂.ready).weaken calm) ?_
    intro _ w₃ v₃ _ grows₃ quiet₃
    have ledger₃ := ledger₂.quiet quiet₃
    refine .bind (asked_reaches ledger₃.ready rfl (fun _ => rfl) (Client.poll_spec lenient ledger₃.ready)) ?_
    rintro _ w₄ v₄ _ grows₄ ⟨f, rfl, command, rfl⟩
    obtain ⟨status, rfl⟩ := f.eq_statusReply command
    refine .get ?_
    dsimp only
    split
    · exact .pure rfl ⟨v₃, (grows₁.trans grows₂).trans grows₃, ledger₃, rfl⟩
    · exact .throw rfl
    · refine .bind ((Task.Reaches.of_within pause_within rfl).weaken calm) ?_
      intro _ w₅ v₅ _ grows₅ quiet₅
      have polled : v₃.Grows RunEvent.isQuiet (v₃.after .status (.statusReply status)) :=
        View.after_grows rfl rfl
      refine (ih _ (ledger₃.quiet (polled.trans quiet₅))).imp ?_
      intro ending v' ⟨mid, growing, ledger', last⟩
      exact ⟨mid, (((grows₁.trans grows₂).trans grows₃).trans (grows₄.trans grows₅)).trans growing,
        ledger', last⟩

theorem waitForEnd_reaches (lenient : law.IsLenient) (limit : Option Nat) (polls : Nat)
    (ledger : Ledger peers counter prior [] v) :
    Task.Reaches (runWatch law) fixed RunEvent.isCalm (waitForEnd polls limit peers counter)
      (fun ending v' => ∃ mid, v.Grows RunEvent.isCalm mid ∧
        Ledger peers counter prior ending.taken mid ∧
        v' = mid.after .status (.statusReply ending.status)) w v := by
  have clock : Task.Within (runWatch law) fixed RunEvent.isQuiet (ask .now) := ask_within fun _ _ => rfl
  refine .bind ((Task.Reaches.of_within clock ledger.ready).weaken fun _ => RunEvent.isCalm_of_isQuiet) ?_
  intro begun w₁ v₁ _ grows₁ quiet₁
  refine (awaitEnd_reaches lenient begun limit polls false (ledger.quiet quiet₁)).imp ?_
  intro ending v' ⟨mid, growing, ledger', last⟩
  exact ⟨mid, grows₁.trans growing, ledger', last⟩

/-- The same for everyone, as long as each part may come at any time. -/
theorem forM_reaches {kind : RunEvent → Bool} {p : String → RunM Unit} (ready : v.line = .ready)
    (each : ∀ peer (w' : Worker) (v' : View), w'.fixed = w.fixed → v'.line = .ready →
      Task.Reaches (runWatch law) fixed kind (p peer) (fun _ _ => True) w' v') :
    Task.Reaches (runWatch law) fixed kind (peers.forM p) (fun _ _ => True) w v := by
  induction peers generalizing w v with
  | nil => exact .pure ready trivial
  | cons peer rest ih =>
    refine .bind (each peer w v rfl ready) fun _ w' v' same grows _ => ih grows.1 ?_
    exact fun other w'' v'' same' => each other w'' v'' (same'.trans same)

/-- The same message to everyone. -/
theorem postAll_reaches {event : String} {ok warn : Bool} (ready : v.line = .ready)
    (may : ∀ past peer, law past (.posted peer ⟨event, w.name, counter, ok, warn⟩)) :
    Task.Reaches (runWatch law) fixed RunEvent.isPost
      (peers.forM fun peer => post peer event counter ok warn) (fun _ _ => True) w v := by
  refine forM_reaches ready fun peer w' v' same ready' => post_reaches ready' ?_
  rw [show w'.name = w.name from congrArg (·.1.name) same]
  exact may _ _

theorem releaseSecondaries_reaches {base : Word} (ready : v.line = .ready)
    (may : ∀ past peer, law past (.posted peer ⟨Event.stopped, w.name, base + 3, false, false⟩)) :
    Task.Reaches (runWatch law) fixed RunEvent.isPost (releaseSecondaries base) (fun _ _ => True) w v := by
  refine .get (forM_reaches ready fun peer w' v' same ready' => ?_)
  refine .bind (attempt_reaches (post_reaches ready' ?_)) fun _ _ _ _ grows _ => .pure grows.1 trivial
  rw [show w'.name = w.name from congrArg (·.1.name) same]
  exact may _ _

end

/-- A run keeps its configuration and takes three counters; how it returns depends on the part of its
role, and on what a failed run adds of one kind. -/
theorem run_spec {kind : RunEvent → Bool} {s : Stream} {polls : Nat} (lenient : law.IsLenient)
    (named : s.name = w.name) (talk : ∀ x, x.isTalk → kind x)
    (release : w.config.role = .primary → (∀ x, x.isPost → kind x) ∧ ∀ past peer,
      law past (.posted peer ⟨Event.stopped, w.name, w.counter + 3, false, false⟩))
    (part : ∀ w' : Worker, w'.fixed = (w.config, w.counter + 3) → Task.wp (runWatch law)
      (match w.config.role with
        | .primary => runPrimary polls s w.counter
        | .secondary => runSecondary polls s w.counter)
      (fun r w'' v' => w''.fixed = w'.fixed ∧ v'.line = .ready ∧ law v'.events (.returned r)) w' v)
    (stays : ∀ (e e' : WorkerError) (v' v'' : View), law v'.events (.returned (.error e)) → v'.Grows kind v'' →
      law v''.events (.returned (.error e'))) :
    Task.wp (runWatch law) (run polls s) (fun r w' v' => w'.fixed = (w.config, w.counter + 3) ∧
      v'.line = .ready ∧ law v'.events (.returned r)) w v := by
  unfold run
  refine Task.wp_get ?_
  dsimp only
  rw [if_neg (not_not_intro named)]
  refine Task.wp_set (Task.wp_ask fun (answer : Nat) _ => ⟨trivial, ?_⟩)
  show Task.wp _ _ _ _ (v.hear (v.line, []))
  rw [v.hear_nothing]
  refine wp_attempt (Task.mono (part _ rfl) ?_)
  rintro (e | report) w₂ v₂ ⟨same₂, ready₂, may⟩
  · have closing {w' : Worker} {v' : View} (ready' : v'.line = .ready) :
        Task.Reaches (runWatch law) fixed kind (abortBoard >>= fun _ => throw e : RunM Report)
          (fun _ _ => False) w' v' :=
      .bind ((Task.Reaches.of_within (abortBoard_within lenient) ready').weaken talk)
        fun _ _ _ _ grows _ => .throw grows.1
    have closed : Task.Reaches (runWatch law) fixed kind
        (if w.config.role = .primary then do
          releaseSecondaries w.counter
          abortBoard
          throw e
        else do
          abortBoard
          throw e : RunM Report) (fun _ _ => False) w₂ v₂ := by
      split
      · rename_i primary
        have same : w₂.name = w.name := congrArg (·.1.name) same₂
        refine .bind ((releaseSecondaries_reaches ready₂ ?_).weaken (release primary).1) ?_
        · rw [same]
          exact (release primary).2
        · exact fun _ _ _ _ grows _ => closing grows.1
      · exact closing ready₂
    refine Task.mono closed ?_
    rintro (e' | report) w₃ v₃ ⟨same₃, grows, never⟩
    · exact ⟨same₃.trans same₂, grows.1, stays e e' v₂ v₃ may grows⟩
    · exact (never report rfl).elim
  · dsimp only
    split
    · exact ⟨same₂, ready₂, may⟩
    · exact ⟨same₂, ready₂, may⟩

end Worker

end Sequencer
