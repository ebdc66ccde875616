import Sequencer.Proofs.ClientCourse

/-!
What the state of a client tells about its board.

A client is followed together with all calls on its present connection, over any number of connections and
whatever is answered. Armed means that the board acknowledged a stream; streams that it rejected later, each after
an acknowledged announcement, do not show in the state. Any state past the first means that the board
acknowledged `openBoard`, or else `reset`.
-/
namespace Sequencer

/-- What is heard with a move on a connection. -/
def View.said (v : View) (move : Move linkInterface) : List RunEvent := (v.line.hearLink move.1 move.2).2

theorem View.follow_cons (v : View) (move : Move linkInterface) (rest : Client.Calls) :
    v.follow (move :: rest) = (v.hear (v.line.hearLink move.1 move.2)).follow rest := rfl

/-- Following calls only adds events. -/
theorem View.follow_grows (v : View) (calls : Client.Calls) : ∃ new, (v.follow calls).events = v.events ++ new := by
  induction calls generalizing v with
  | nil => exact ⟨[], (List.append_nil _).symm⟩
  | cons move rest ih =>
    obtain ⟨new, grown⟩ := ih (v.hear (v.line.hearLink move.1 move.2))
    exact ⟨v.said move ++ new, by rw [v.follow_cons, grown, ← List.append_assoc]; rfl⟩

namespace Client

/-- All that was said and heard on a connection with these calls. -/
def listen (calls : Calls) : View := View.follow {} calls

@[simp] theorem listen_nil : listen [] = {} := rfl

theorem listen_append (first second : Calls) : listen (first ++ second) = (listen first).follow second :=
  View.follow_append {} first second

/-- What a client can become, with the calls on its present connection. -/
inductive Talked : Client → Calls → Prop where
  | unconnected (name : String) (operationMs : Nat) : Talked { name, operationMs } []
  | connected (name : String) (operationMs : Nat) (connection : ConnectionId) :
    Talked { name, operationMs, connection := some connection, state := .connected } []
  | attached {c c' : Client} {before calls : Calls} {connection : ConnectionId} {r : Except LinkError Unit}
    (earlier : Talked c before) (runs : Task.Runs (ClientCall.attach connection).perform c calls r c') :
    Talked c' []
  | called {c c' : Client} {before calls : Calls} {call : ClientCall} {r : Except LinkError Unit}
    (earlier : Talked c before) (stays : ∀ connection, call ≠ .attach connection)
    (runs : Task.Runs call.perform c calls r c') : Talked c' (before ++ calls)

variable {c c' : Client} {calls first rest : Calls} {move : Move linkInterface} {v : View} {request : Frame}

/-! ### One call -/

theorem Course.ready (course : Course c v calls c') (ready : v.line = .ready) : (v.follow calls).line = .ready := by
  cases course with
  | idle state unheard => rwa [unheard]
  | failed request answer could heard => rw [heard]
  | granted request answer could single met heard => rw [heard]; rfl
  | refused count answer could heard => rw [heard]
  | uploaded payload could uploads =>
    obtain ⟨_, _, _, _, _, _, _, _, heard⟩ := uploads
    rw [heard]
  | left state talk => exact talk.1

/-- A call asks its board once at most, unless it takes leave. -/
theorem Course.events (course : Course c v calls c') : ∃ new, (v.follow calls).events = v.events ++ new ∧
    (new = [] ∨
      (∃ (request : Frame) (answers : List (Except LinkError Frame)),
        new = .requested request :: answers.map .answered ∧ c.state ∈ request.command.allowedIn) ∨
      ∀ x ∈ new, RunEvent.isTalkOf [.stop, .close] x) := by
  cases course with
  | idle state unheard => exact ⟨[], by rw [unheard, List.append_nil], .inl rfl⟩
  | failed request answer could heard =>
    exact ⟨_, congrArg View.events heard, .inr (.inl ⟨request, [answer], rfl, could⟩)⟩
  | granted request answer could single met heard =>
    exact ⟨_, congrArg View.events heard, .inr (.inl ⟨request, [.ok answer], rfl, could⟩)⟩
  | refused count answer could heard =>
    refine ⟨exchange (.write count) .ack ++ [.answered answer], ?_, ?_⟩
    · rw [heard, List.append_assoc]
    · exact .inr (.inl ⟨.write count, [.ok .ack, answer], rfl, could⟩)
  | uploaded payload could uploads =>
    obtain ⟨_, _, _, _, _, _, _, _, heard⟩ := uploads
    refine ⟨exchange (.write (.ofNat 32 payload.length)) .ack ++ [.answered (.ok .ack)], ?_, ?_⟩
    · rw [heard, List.append_assoc]
    · exact .inr (.inl ⟨.write (.ofNat 32 payload.length), [.ok .ack, .ok .ack], rfl, could⟩)
  | left state talk =>
    obtain ⟨_, new, grown, leave⟩ := talk
    exact ⟨new, grown, .inr (.inr leave)⟩

/-- Among a request and its answers nothing stands before the request. -/
theorem only_request {asked : Frame} {earlier said later : List RunEvent} {answers : List (Except LinkError Frame)}
    (whole : earlier ++ said ++ later = .requested asked :: answers.map .answered)
    (asks : .requested request ∈ said) : earlier = [] ∧ request = asked := by
  have answering : .requested request ∉ answers.map RunEvent.answered := by simp
  have member : .requested request ∈ earlier ++ said ++ later := by simp [asks]
  rw [whole] at member
  rcases List.mem_cons.mp member with same | other
  · refine ⟨?_, RunEvent.requested.inj same⟩
    cases earlier with
    | nil => rfl
    | cons x rest =>
      rw [List.cons_append, List.cons_append] at whole
      obtain ⟨_, tail⟩ := List.cons.inj whole
      exact absurd (tail ▸ by simp [asks]) answering
  · exact absurd other answering

/-- A request goes out before anything else is said, and in a state in which it is allowed. -/
theorem Course.asks (course : Course c v (first ++ move :: rest) c')
    (asks : .requested request ∈ (v.follow first).said move) (serves : request.command ∉ [.stop, .close]) :
    (v.follow first).events = v.events ∧ c.state ∈ request.command.allowedIn := by
  obtain ⟨earlier, grown⟩ := v.follow_grows first
  obtain ⟨later, ended⟩ := ((v.follow first).hear ((v.follow first).line.hearLink move.1 move.2)).follow_grows rest
  obtain ⟨new, whole, kinds⟩ := course.events
  have split : earlier ++ (v.follow first).said move ++ later = new := by
    rw [View.follow_append, View.follow_cons, ended, View.hear, grown] at whole
    simpa [View.said] using whole
  have member : .requested request ∈ new := by
    rw [← split]
    simp [asks]
  rcases kinds with rfl | ⟨asked, answers, rfl, could⟩ | leave
  · cases member
  · obtain ⟨rfl, rfl⟩ := only_request split asks
    exact ⟨by rw [grown, List.append_nil], could⟩
  · exact absurd (by simpa [RunEvent.isTalkOf] using leave _ member) serves

/-! ### All calls on a connection -/

theorem Talked.ready (talked : Talked c calls) : (listen calls).line = .ready := by
  induction talked with
  | unconnected | connected | attached => rfl
  | called earlier stays runs ih =>
    rw [listen_append]
    exact (ClientCall.course runs ih stays).ready ih

theorem Talked.course {call : ClientCall} {r : Except LinkError Unit} (talked : Talked c calls)
    (stays : ∀ connection, call ≠ .attach connection) {more : Calls} (runs : Task.Runs call.perform c more r c') :
    Course c (listen calls) more c' :=
  ClientCall.course runs talked.ready stays

/-- The client that sent a request was in a state in which it is allowed. -/
theorem Talked.asks (talked : Talked c calls) (split : calls = first ++ move :: rest)
    (asks : .requested request ∈ (listen first).said move) (serves : request.command ∉ [.stop, .close]) :
    ∃ before earlier silent, Talked before earlier ∧ first = earlier ++ silent ∧
      (listen first).events = (listen earlier).events ∧ before.state ∈ request.command.allowedIn := by
  induction talked generalizing first rest with
  | unconnected | connected | attached => simp at split
  | @called c c' before calls call r earlier stays runs ih =>
    have course := earlier.course stays runs
    rcases List.append_eq_append_iff.mp split with ⟨silent, rfl, new⟩ | ⟨last, old, new⟩
    · rw [listen_append] at asks ⊢
      rw [new] at course
      obtain ⟨same, could⟩ := course.asks asks serves
      exact ⟨c, before, silent, earlier, rfl, same, could⟩
    · cases last with
      | nil =>
        rw [List.append_nil] at old
        subst old
        have course : Course c (listen before) ([] ++ move :: rest) c' := new ▸ course
        obtain ⟨_, could⟩ := course.asks asks serves
        exact ⟨c, before, [], earlier, (List.append_nil _).symm, rfl, could⟩
      | cons other last =>
        obtain ⟨rfl, _⟩ := List.cons.inj new
        exact ih old asks

/-! ### Armed -/

/-- Commands that take a board away from the stream it holds, or give it another one. -/
def movers : List Command := [.config, .reset, .write, .start, .stop]

/-- What is said without a consequence for the state of a client: a request that was not granted or only asks, or
an announced stream that was rejected. -/
inductive Harmless : List RunEvent → Prop where
  | asked (request : Frame) (answer : Except LinkError Frame)
    (spared : request.command ∈ movers → ∀ f, answer = .ok f → f.command ≠ request.reply) :
    Harmless [.requested request, .answered answer]
  | rejected (count : Word) (answer : Except LinkError Frame) (rejects : Rejects answer) :
    Harmless (exchange (.write count) .ack ++ [.answered answer])

/-- The board acknowledged a stream, from its announcement to its last byte, and since then all was harmless. -/
def HoldsStream (calls : Calls) : Prop :=
  ∃ (before upload after : Calls) (payload : List Byte) (since : List (List RunEvent)),
    calls = before ++ upload ++ after ∧ Uploads (listen before) payload upload ∧
    (listen calls).events = (listen (before ++ upload)).events ++ since.flatten ∧ ∀ part ∈ since, Harmless part

theorem HoldsStream.append {more : Calls} (holds : HoldsStream calls) (parts : List (List RunEvent))
    (added : ((listen calls).follow more).events = (listen calls).events ++ parts.flatten)
    (harmless : ∀ part ∈ parts, Harmless part) : HoldsStream (calls ++ more) := by
  obtain ⟨before, upload, after, payload, since, rfl, uploads, events, spared⟩ := holds
  refine ⟨before, upload, after ++ more, payload, since ++ parts, by simp, uploads, ?_, ?_⟩
  · rw [listen_append, added, events, List.flatten_append, List.append_assoc]
  · intro part member
    exact (List.mem_append.mp member).elim (spared part) (harmless part)

theorem LinkState.after_armed {s : LinkState} {command : Command} (armed : s.after command = .armed)
    (single : command ≠ .write) : s = .armed ∧ command ∉ movers := by
  cases command <;> cases s <;> simp_all [LinkState.after, movers]

theorem Talked.holds (talked : Talked c calls) (armed : c.state = .armed) : HoldsStream calls := by
  induction talked with
  | unconnected | connected => cases armed
  | attached earlier runs => simp [attach_connects runs] at armed
  | @called c c' before calls call r earlier stays runs ih =>
    cases earlier.course stays runs with
    | idle state unheard => exact (ih (state ▸ armed)).append [] (by simp [unheard]) (by simp)
    | failed request answer could heard unmet kept =>
      have same : c'.state = c.state := kept.resolve_right (by simp [armed])
      refine (ih (same ▸ armed)).append [[.requested request, .answered answer]] ?_ ?_
      · rw [heard, List.flatten_singleton]
      · exact List.forall_mem_singleton.mpr (.asked request answer fun _ => unmet)
    | granted request answer could single met heard state =>
      obtain ⟨was, spared⟩ := LinkState.after_armed (state ▸ armed) single
      refine (ih was).append [exchange request answer] ?_ ?_
      · rw [heard, List.flatten_singleton]
        rfl
      · exact List.forall_mem_singleton.mpr (.asked request _ fun moves => absurd moves spared)
    | refused count answer could heard kept =>
      obtain ⟨same, rejects⟩ := kept.resolve_right (by simp [armed])
      refine (ih (same ▸ armed)).append [exchange (.write count) .ack ++ [.answered answer]] ?_ ?_
      · rw [heard, List.flatten_singleton, List.append_assoc]
      · exact List.forall_mem_singleton.mpr (.rejected count answer rejects)
    | uploaded payload could uploads state =>
      exact ⟨before, calls, [], payload, [], by simp, uploads, by simp, by simp⟩
    | left state talk => rw [state] at armed; cases armed

theorem HoldsStream.silence {silent : Calls} (holds : HoldsStream calls)
    (unheard : (listen (calls ++ silent)).events = (listen calls).events) : HoldsStream (calls ++ silent) := by
  refine holds.append [] ?_ (by simp)
  rw [← listen_append, unheard, List.flatten_nil, List.append_nil]

/-- An armed client's board acknowledged a whole stream, and since then rejected streams at most. With such a
board only `start` is sent. -/
theorem armed_holds_stream (talked : Talked c calls) : (c.state = .armed → HoldsStream calls) ∧
    ∀ first move rest cycles, calls = first ++ move :: rest →
      .requested (.start cycles) ∈ (listen first).said move → HoldsStream first := by
  refine ⟨talked.holds, fun first move rest cycles split asks => ?_⟩
  obtain ⟨before, earlier, silent, talked', rfl, unheard, could⟩ :=
    talked.asks split asks (by simp [Frame.command])
  exact (talked'.holds (List.mem_singleton.mp could)).silence unheard

/-- An answer that comes whole. -/
def replying (answer : Frame) : Calls :=
  [⟨.receive 0 2, Except.ok (answer.encode.take 2)⟩,
    ⟨.receive 0 (answer.encode.length - 2), Except.ok (answer.encode.drop 2)⟩]

/-- A request that goes out, with its answer. -/
def exchanging (request answer : Frame) : Calls := ⟨.send 0 request.encode, Except.ok ()⟩ :: replying answer

/-- A stream of two bytes that goes out after its announcement, with its answer. -/
def streaming (answer : Frame) : Calls :=
  exchanging (.write 2) .ack ++ ⟨.send 0 [1, 2], Except.ok ()⟩ :: replying answer

/-- Two uploads of which the board rejects the second. -/
def rejectedCalls : Calls :=
  exchanging .openBoard .ack ++ exchanging (.config {}) (.config {}) ++ streaming .ack ++ streaming .nack

def armedSample : Client := { configuredSample with state := .armed }

theorem armedSample_talked : Talked armedSample rejectedCalls := by
  have opened : Talked { sample with state := .opened } (exchanging .openBoard .ack) :=
    .called (.connected "main" 5000 0) (by simp) opening_runs
  have configured : Talked configuredSample (exchanging .openBoard .ack ++ exchanging (.config {}) (.config {})) :=
    .called opened (by simp) configuring_runs
  have uploaded : Task.Runs (ClientCall.write [1, 2]).perform configuredSample (streaming .ack) (.ok ())
      armedSample := .move _ (.move _ (.move _ (.move _ (.move _ (.move _ (.stay _))))))
  have rejected : Task.Runs (ClientCall.write [1, 2]).perform armedSample (streaming .nack)
      (.error (.refused .write)) armedSample :=
    .move _ (.move _ (.move _ (.move _ (.move _ (.move _ (.stay _))))))
  exact .called (.called configured (by simp) uploaded) (by simp) rejected

theorem armedSample_starts : Task.Runs (ClientCall.start 1).perform armedSample (exchanging (.start 1) .ack) (.ok ())
    { armedSample with state := .running } := .move _ (.move _ (.move _ (.stay _)))

/-- The sample starts with the first of its streams acknowledged. -/
theorem armedSample_holds_stream :
    Talked { armedSample with state := .running } (rejectedCalls ++ exchanging (.start 1) .ack) ∧
      HoldsStream rejectedCalls := by
  have started : Talked { armedSample with state := .running } (rejectedCalls ++ exchanging (.start 1) .ack) :=
    .called armedSample_talked (by simp) armedSample_starts
  refine ⟨started, (armed_holds_stream started).2 rejectedCalls _ _ 1 rfl ?_⟩
  exact List.mem_singleton.mpr rfl

/-- The stream of the last acknowledged announcement was rejected: still the client is armed, and it starts the
board. -/
theorem armed_after_rejected_stream : Talked armedSample rejectedCalls ∧ armedSample.state = .armed ∧
    (listen rejectedCalls).events = exchange .openBoard .ack ++ exchange (.config {}) (.config {}) ++
      exchange (.write 2) .ack ++ [.answered (.ok .ack)] ++
      exchange (.write 2) .ack ++ [.answered (.ok .nack)] ∧
    Task.Runs (ClientCall.start 1).perform armedSample (exchanging (.start 1) .ack) (.ok ())
      { armedSample with state := .running } :=
  ⟨armedSample_talked, rfl, rfl, armedSample_starts⟩

/-! ### Past the first state -/

/-- The board acknowledged `openBoard`, or `reset`. -/
def Greeted (events : List RunEvent) : Prop :=
  exchange .openBoard .ack <:+: events ∨ exchange .reset .ack <:+: events

theorem Greeted.append {events : List RunEvent} (greeted : Greeted events) (more : List RunEvent) :
    Greeted (events ++ more) :=
  greeted.imp (fun opened => opened.trans (List.prefix_append _ _).isInfix)
    fun reset => reset.trans (List.prefix_append _ _).isInfix

theorem LinkState.past_of_after {s : LinkState} {request : Frame} (could : s ∈ request.command.allowedIn)
    (past : s.after request.command ∉ [.disconnected, .connected]) :
    s ∉ [.disconnected, .connected] ∨ request = .openBoard ∨ request = .reset := by
  cases request <;> cases s <;> simp_all [LinkState.after, Frame.command, Command.allowedIn, anyConnected]

theorem past_of_allowed {s : LinkState} {command : Command} (needs : command ∈ [.config, .write, .start])
    (could : s ∈ command.allowedIn) : s ∉ [.disconnected, .connected] := by
  cases command <;> cases s <;> simp_all [Command.allowedIn]

theorem Talked.greeted (talked : Talked c calls) (past : c.state ∉ [.disconnected, .connected]) :
    Greeted (listen calls).events := by
  induction talked with
  | unconnected | connected => simp at past
  | attached earlier runs => simp [attach_connects runs] at past
  | @called c c' before calls call r earlier stays runs ih =>
    rw [listen_append]
    have stayed (new : List RunEvent) (was : c.state ∉ [.disconnected, .connected])
        (heard : ((listen before).follow calls).events = (listen before).events ++ new) :
        Greeted ((listen before).follow calls).events := heard ▸ (ih was).append new
    cases earlier.course stays runs with
    | idle state unheard => exact unheard.symm ▸ ih (state ▸ past)
    | failed request answer could heard unmet kept =>
      have same : c'.state = c.state := kept.resolve_right fun lost => by simp [lost] at past
      exact stayed _ (same ▸ past) (congrArg View.events heard)
    | granted request answer could single met heard state =>
      rcases LinkState.past_of_after could (state ▸ past) with was | rfl | rfl
      · exact stayed _ was (congrArg View.events heard)
      all_goals obtain rfl := answer.eq_ack met
      · exact .inl (heard ▸ (List.suffix_append _ _).isInfix)
      · exact .inr (heard ▸ (List.suffix_append _ _).isInfix)
    | refused count answer could heard kept =>
      refine stayed (exchange (.write count) .ack ++ [.answered answer]) (past_of_allowed (by simp) could) ?_
      rw [heard, List.append_assoc]
    | uploaded payload could uploads state =>
      obtain ⟨new, grown⟩ := (listen before).follow_grows calls
      exact stayed new (past_of_allowed (by simp) could) grown
    | left state talk => simp [state] at past

/-- A client is past its first state only if its board acknowledged `openBoard` or `reset` on this connection, and
only then are a configuration, a stream or `start` sent. -/
theorem greeted_before_use (talked : Talked c calls) :
    (c.state ∉ [.disconnected, .connected] → Greeted (listen calls).events) ∧
    ∀ first move rest request, calls = first ++ move :: rest → .requested request ∈ (listen first).said move →
      request.command ∈ [.config, .write, .start] → Greeted (listen first).events := by
  refine ⟨talked.greeted, fun first move rest request split asks needs => ?_⟩
  have serves : request.command ∉ [.stop, .close] := by
    intro leaves
    simp only [List.mem_cons, List.not_mem_nil, or_false] at needs leaves
    rcases leaves with leaves | leaves <;> simp [leaves] at needs
  obtain ⟨before, earlier, silent, talked', rfl, unheard, could⟩ := talked.asks split asks serves
  exact unheard ▸ talked'.greeted (past_of_allowed needs could)

theorem resetSample_talked : Talked configuredSample
    (exchanging .reset .ack ++ exchanging (.config {}) (.config {})) := by
  have reset : Task.Runs ClientCall.reset.perform sample (exchanging .reset .ack) (.ok ())
      { sample with state := .opened } := .move _ (.move _ (.move _ (.stay _)))
  have wasReset : Talked { sample with state := .opened } (exchanging .reset .ack) :=
    .called (.connected "main" 5000 0) (by simp) reset
  exact .called wasReset (by simp) configuring_runs

/-- A board that was only reset counts as opened, and is configured. -/
theorem configured_without_open : Talked configuredSample
      (exchanging .reset .ack ++ exchanging (.config {}) (.config {})) ∧
    configuredSample.state = .configured ∧
    (listen (exchanging .reset .ack ++ exchanging (.config {}) (.config {}))).events =
      exchange .reset .ack ++ exchange (.config {}) (.config {}) :=
  ⟨resetSample_talked, rfl, rfl⟩

/-- The sample was greeted by its reset before its configuration was sent. -/
theorem configuredSample_greeted : Talked configuredSample
      (exchanging .reset .ack ++ exchanging (.config {}) (.config {})) ∧
    Greeted (listen (exchanging .reset .ack ++ exchanging (.config {}) (.config {}))).events ∧
    Greeted (listen (exchanging .reset .ack)).events := by
  refine ⟨resetSample_talked, (greeted_before_use resetSample_talked).1 (by decide), ?_⟩
  exact (greeted_before_use resetSample_talked).2 _ _ _ (.config {}) rfl (List.mem_singleton.mpr rfl) (by decide)

end Client

end Sequencer
