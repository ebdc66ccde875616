import Sequencer.Proofs.Chunks
import Sequencer.Proofs.ClientPolicy
import Sequencer.Proofs.Conversation

/-!
What each call of a client does to the client's state and to the talk on its connection, whatever is answered.

A call asks for nothing, or its request fails, or it is granted, and only what is granted takes the client to
another state of a connection. An upload has two answers: the one to its announcement and the one to its stream.
-/
namespace Sequencer

/-- The view after the calls of a client on its connection. -/
def View.follow (v : View) (calls : Client.Calls) : View :=
  calls.foldl (fun v move => v.hear (v.line.hearLink move.1 move.2)) v

@[simp] theorem View.follow_nil (v : View) : v.follow [] = v := rfl

@[simp] theorem View.follow_append (v : View) (first second : Client.Calls) :
    v.follow (first ++ second) = (v.follow first).follow second := List.foldl_append

/-- The states in which a client may send a request. -/
def Command.allowedIn : Command → List LinkState
  | config => [.opened, .configured, .armed]
  | write => [.configured, .armed]
  | start => [.armed]
  | _ => Client.anyConnected

/-- Where a granted request takes a client. -/
def LinkState.after (s : LinkState) : Command → LinkState
  | .openBoard => if s = .connected then .opened else s
  | .reset => .opened
  | .config => .configured
  | .start => .running
  | .stop => if s ≠ .connected then .opened else s
  | _ => s

/-- An answer that costs a client its request but not its connection. -/
def Rejects : Except LinkError Frame → Prop
  | .ok f => f = .nack
  | .error e => e.isFatal = false

namespace Client
variable {α β : Type} {c c' : Client} {calls : Calls} {v v' : View} {request : Frame} {p : LinkM α}
  {f : α → LinkM β}

/-- Pieces of a stream that all went out. -/
def sends (connection : ConnectionId) (pieces : List (List Byte)) : Calls :=
  pieces.map fun piece => ⟨.send connection piece, Except.ok ()⟩

/-- A stream that went over a connection and was acknowledged: the announcement of its length, its bytes in
pieces, and the answer to it. -/
def Uploads (v : View) (payload : List Byte) (calls : Calls) : Prop :=
  ∃ connection announcement pieces confirmation,
    calls = announcement ++ sends connection pieces ++ confirmation ∧
    pieces.flatten = payload ∧ payload.length ≤ maxPayload ∧
    v.follow announcement =
      ⟨.uploading, v.events ++ exchange (.write (.ofNat 32 payload.length)) .ack⟩ ∧
    v.follow calls =
      ⟨.ready, v.events ++ exchange (.write (.ofNat 32 payload.length)) .ack ++ [.answered (.ok .ack)]⟩

/-- How a call went. -/
inductive Course (c : Client) (v : View) (calls : Calls) (c' : Client) : Prop where
  | idle (state : c'.state = c.state) (unheard : v.follow calls = v)
  | failed (request : Frame) (answer : Except LinkError Frame) (could : c.state ∈ request.command.allowedIn)
      (heard : v.follow calls = ⟨.ready, v.events ++ [.requested request, .answered answer]⟩)
      (unmet : ∀ f, answer = .ok f → f.command ≠ request.reply)
      (kept : c'.state = c.state ∨ c'.state = .disconnected)
  | granted (request answer : Frame) (could : c.state ∈ request.command.allowedIn)
      (single : request.command ≠ .write) (met : answer.command = request.reply)
      (heard : v.follow calls = v.after request answer) (state : c'.state = c.state.after request.command)
  | refused (count : Word) (answer : Except LinkError Frame) (could : c.state ∈ Command.write.allowedIn)
      (heard : v.follow calls = ⟨.ready, v.events ++ exchange (.write count) .ack ++ [.answered answer]⟩)
      (kept : (c'.state = c.state ∧ Rejects answer) ∨ c'.state = .disconnected)
  | uploaded (payload : List Byte) (could : c.state ∈ Command.write.allowedIn)
      (uploads : Uploads v payload calls) (state : c'.state = .armed)
  | left (state : c'.state = .disconnected) (talk : v.Grows (RunEvent.isTalkOf [.stop, .close]) (v.follow calls))

/-! ### Runs of parts -/

/-- What holds of a program, whatever is answered, holds of its runs. -/
theorem follow_runs {Q : Except LinkError α → Client → View → Prop} {r : Except LinkError α}
    (spec : Task.wp (linkWatch .free) p Q c v) (runs : Task.Runs p c calls r c') : Q r c' (v.follow calls) :=
  Program.wp_runs spec (fun _ _ => trivial) runs

/-- What follows a program is silent and leaves the client as it is. -/
theorem runs_first {r : Except LinkError β}
    (quiet : ∀ a mid calls r c', Task.Runs (f a) mid calls r c' → calls = [] ∧ c' = mid)
    (runs : Task.Runs (p >>= f) c calls r c') : ∃ r, Task.Runs p c calls r c' := by
  rcases Task.runs_bind.mp runs with ⟨before, after, a, mid, rfl, ran, goesOn⟩ | ⟨e, rfl, ran⟩
  · obtain ⟨rfl, rfl⟩ := quiet a mid after r c' goesOn
    rw [List.append_nil]
    exact ⟨_, ran⟩
  · exact ⟨_, ran⟩

theorem runs_unit {r : Except LinkError Unit} (runs : Task.Runs (p >>= fun _ => pure ()) c calls r c') :
    ∃ r, Task.Runs p c calls r c' := by
  refine runs_first (fun _ _ _ _ _ ended => ?_) runs
  obtain ⟨uncalled, _, same⟩ := Task.runs_pure.mp ended
  exact ⟨uncalled, same⟩

theorem require_follows {operation : Command} {allowed : List LinkState} {r : Except LinkError Unit}
    (runs : Task.Runs (require operation allowed) c calls r c') :
    c' = c ∧ calls = [] ∧ (r = .ok () → c.state ≠ .disconnected ∧ c.state ∈ allowed) := by
  unfold require at runs
  replace runs := Task.runs_get.mp runs
  by_cases lost : c.state = .disconnected
  · rw [if_pos lost] at runs
    obtain ⟨uncalled, rfl, same⟩ := Task.runs_throw.mp runs
    exact ⟨same, uncalled, nofun⟩
  · rw [if_neg lost] at runs
    by_cases here : c.state ∈ allowed
    · rw [if_neg (not_not_intro here)] at runs
      obtain ⟨uncalled, _, same⟩ := Task.runs_pure.mp runs
      exact ⟨same, uncalled, fun _ => ⟨lost, here⟩⟩
    · rw [if_pos here] at runs
      obtain ⟨uncalled, rfl, same⟩ := Task.runs_throw.mp runs
      exact ⟨same, uncalled, nofun⟩

/-- After a failure a client is as it was, or disconnected. -/
theorem Does.kept {R : Client → Prop} {e : LinkError} (does : Does p c R)
    (runs : Task.Runs p c calls (.error e) c') : c' = c ∧ e.isFatal = false ∨ c'.state = .disconnected := by
  have ended := does calls _ c' runs
  dsimp only at ended
  split at ended
  · exact .inr ended.disconnected.state
  · rename_i calm
    exact .inl ⟨ended, by simpa using calm⟩

/-- An error that leaves the connection comes with an answer that does. -/
theorem rejects_of_calm {answer : Except LinkError Frame} {command expected : Command} {e : LinkError}
    (failed : (answer >>= expect command expected) = .error e) (calm : e.isFatal = false) : Rejects answer := by
  cases answer with
  | error _ =>
    obtain rfl := Except.error.inj failed
    exact calm
  | ok f =>
    simp only [bind, Except.bind, expect] at failed
    split at failed
    · cases failed
    · split at failed
      · rename_i refusal
        exact f.eq_nack refusal
      · obtain rfl := Except.error.inj failed
        cases calm

/-- A request that a client may send fails, or has the answer with which the program goes on. -/
theorem transact_course (request : Frame) {next : Frame → LinkM α} {r : Except LinkError α}
    (runs : Task.Runs (transact request request.reply >>= next) c calls r c') (ready : v.line = .ready)
    (short : request.command ≠ .statusFullReply) (could : c.state ∈ request.command.allowedIn) :
    Course c v calls c' ∨ ∃ f talk rest, calls = talk ++ rest ∧ f.command = request.reply ∧
      c.connection.isSome ∧ v.follow talk =
        ⟨Line.afterAnswer (some request) (.ok f), v.events ++ exchange request f⟩ ∧
      Task.Runs (next f) c rest r c' := by
  have fits : ∀ count, request = .write count → request.reply = .ack := by
    rintro count rfl
    rfl
  have spec := transact_spec (c := c) Law.free_isLenient ready short trivial fits
  rcases Task.runs_bind.mp runs with ⟨talk, rest, f, mid, rfl, asked, goesOn⟩ | ⟨e, rfl, asked⟩
  · rcases follow_runs spec asked with ⟨_, impossible, _⟩ | ⟨_, same, met, rfl, connected, heard⟩
    · cases impossible
    · obtain rfl := Except.ok.inj same
      exact .inr ⟨f, talk, rest, rfl, met, connected, heard, goesOn⟩
  · have kept : c'.state = c.state ∨ c'.state = .disconnected :=
      (transact_tells.kept asked).imp_left fun same => congrArg Client.state same.1
    rcases follow_runs spec asked with ⟨_, _, missed⟩ | ⟨_, impossible, _⟩
    · cases missed with
      | unsent _ same unheard => exact .inl (.idle (congrArg Client.state same) unheard)
      | failed _ heard unmet _ => exact .inl (.failed request _ could heard unmet kept)
    · cases impossible

/-- A call that is one request in some states, with what its success does to the state. -/
theorem asking_course (request : Frame) {operation expected : Command} {allowed : List LinkState}
    {next : Frame → LinkM α} {r : Except LinkError α} (runs : Task.Runs
      (require operation allowed >>= fun _ => transact request expected >>= next) c calls r c')
    (ready : v.line = .ready) (legal : allowed = request.command.allowedIn) (reply : expected = request.reply)
    (short : request.command ≠ .statusFullReply) (single : request.command ≠ .write)
    (tail : ∀ f calls r c', Task.Runs (next f) c calls r c' →
      calls = [] ∧ c'.state = c.state.after request.command) : Course c v calls c' := by
  subst legal reply
  rcases Task.runs_bind.mp runs with ⟨before, after, _, mid, rfl, ran, goesOn⟩ | ⟨e, rfl, ran⟩
  · obtain ⟨rfl, rfl, passed⟩ := require_follows ran
    obtain ⟨_, could⟩ := passed rfl
    rcases transact_course request goesOn ready short could with course | ⟨f, talk, rest, rfl, met, _, heard, ended⟩
    · exact course
    · obtain ⟨rfl, state⟩ := tail f rest r c' ended
      refine .granted request f could single met ?_ state
      rw [List.nil_append, List.append_nil, heard]
      unfold Line.afterAnswer
      split
      · rename_i count isWrite _
        exact absurd (congrArg Frame.command (Option.some.inj isWrite)) single
      · rfl
  · obtain ⟨rfl, rfl, _⟩ := require_follows ran
    exact .idle rfl rfl

/-- The answer to a request or a stream, as it was heard. -/
theorem receive_follows {connection : ConnectionId} (asked : Option Frame) {command expected : Command}
    {r : Except LinkError Frame} (runs : Task.Runs (receive command expected) c calls r c')
    (linked : c.connection = some connection) (awaits : v.line.Awaits asked)
    (fits : ∀ count, asked = some (.write count) → expected = .ack) :
    ∃ answer, r = (answer >>= expect command expected) ∧
      v.follow calls = ⟨Line.afterAnswer asked answer, v.events ++ [.answered answer]⟩ := by
  unfold receive at runs
  replace runs := Task.runs_get.mp runs
  rw [linked] at runs
  rcases Task.runs_bind.mp runs with ⟨reading, rest, answer, mid, rfl, ran, goesOn⟩ | ⟨_, _, impossible⟩
  · obtain ⟨_, same, rfl, read⟩ := Task.runs_lift.mp ran
    obtain rfl := Except.ok.inj same
    have heard : v.follow reading = ⟨Line.afterAnswer asked answer, v.events ++ [.answered answer]⟩ :=
      Program.wp_runs (readFrame_spec Law.free_isLenient awaits connection) (fun _ _ => trivial) read
    refine ⟨answer, ?_⟩
    obtain ⟨rfl, unheard, _⟩ := follow_runs (v := v.follow reading)
      (guarding_spec (answer >>= expect command expected) fun e failed => by
        rw [heard]
        exact afterAnswer_of_error fits failed) goesOn
    rw [View.follow_append, unheard]
    exact ⟨rfl, heard⟩
  · obtain ⟨_, impossible, _⟩ := Task.runs_lift.mp impossible
    cases impossible

/-- A stream that goes out as a whole leaves nothing else in the trace. -/
theorem sendAll_runs {connection : ConnectionId} {pieces : List (List Byte)}
    (runs : Task.Runs (pieces.forM sendBytes) c calls (.ok ()) c') (linked : c.connection = some connection) :
    calls = sends connection pieces ∧ c' = c := by
  induction pieces generalizing calls with
  | nil =>
    obtain ⟨rfl, _, rfl⟩ := Task.runs_pure.mp runs
    exact ⟨rfl, rfl⟩
  | cons piece rest ih =>
    rcases Task.runs_bind.mp runs with ⟨first, second, _, mid, rfl, ran, goesOn⟩ | ⟨_, impossible, _⟩
    · obtain ⟨rfl, _⟩ := sendBytes_tells piece first _ mid ran
      unfold sendBytes at ran
      replace ran := Task.runs_get.mp ran
      rw [linked] at ran
      rcases Task.runs_bind.mp ran with ⟨asking, guard, answer, last, rfl, asked, passed⟩ | ⟨_, impossible, _⟩
      · obtain ⟨_, rfl, same, rfl⟩ := Task.runs_ask.mp asked
        obtain rfl := Except.ok.inj same
        cases answer with
        | ok u =>
          obtain ⟨rfl, _, _⟩ := Task.runs_pure.mp passed
          obtain ⟨rfl, rfl⟩ := ih goesOn
          exact ⟨rfl, rfl⟩
        | error e =>
          obtain ⟨impossible, _⟩ := follow_runs (v := {}) (guarding_spec (.error e) fun _ _ => rfl) passed
          cases impossible
      · cases impossible
    · cases impossible

/-! ### An upload -/

/-- The answer to a stream arms a client, or rejects the stream, or costs the connection. -/
theorem confirm_course {r : Except LinkError Unit} {connection : ConnectionId}
    (runs : Task.Runs (receive .write .ack >>= fun _ => setState .armed) c calls r c')
    (uploading : v.line = .uploading) (linked : c.connection = some connection) :
    ∃ answer, v.follow calls = ⟨.ready, v.events ++ [.answered answer]⟩ ∧
      (answer = .ok .ack ∧ c'.state = .armed ∨ (c'.state = c.state ∧ Rejects answer) ∨ c'.state = .disconnected) := by
  rcases Task.runs_bind.mp runs with ⟨reading, rest, f, mid, rfl, got, ended⟩ | ⟨e, rfl, got⟩
  · obtain ⟨answer, met, heard⟩ := receive_follows (v := v) none got linked uploading nofun
    obtain ⟨rfl, command⟩ := expect_eq_ok_iff.mp met.symm
    obtain rfl := f.eq_ack command
    obtain ⟨rfl, _, rfl⟩ := Task.runs_pure.mp (Task.runs_modify (f := pure).mp ended)
    exact ⟨.ok .ack, by rw [List.append_nil, heard]; rfl, .inl ⟨rfl, rfl⟩⟩
  · obtain ⟨answer, failed, heard⟩ := receive_follows (v := v) none got linked uploading nofun
    refine ⟨answer, heard, .inr ((receive_tells.kept got).imp_left fun ⟨same, calm⟩ => ?_)⟩
    exact ⟨congrArg Client.state same, rejects_of_calm failed.symm calm⟩

/-- The same for an announced stream that goes out first, as far as it gets through. -/
theorem stream_course {pieces : List (List Byte)} {r : Except LinkError Unit}
    (runs : Task.Runs (pieces.forM sendBytes >>= fun _ => receive .write .ack >>= fun _ => setState .armed)
      c calls r c')
    (uploading : v.line = .uploading) {connection : ConnectionId} (linked : c.connection = some connection) :
    ∃ answer, v.follow calls = ⟨.ready, v.events ++ [.answered answer]⟩ ∧
      ((∃ confirmation, calls = sends connection pieces ++ confirmation ∧ answer = .ok .ack ∧ c'.state = .armed) ∨
        (c'.state = c.state ∧ Rejects answer) ∨ c'.state = .disconnected) := by
  have spec := sendAll_stream (c := c) Law.free_isLenient pieces uploading (by rw [linked]; rfl)
  rcases Task.runs_bind.mp runs with ⟨sent, rest, _, mid, rfl, ran, goesOn⟩ | ⟨e, rfl, ran⟩
  · obtain ⟨rfl, rfl⟩ := sendAll_runs ran linked
    have silent : v.follow (sends connection pieces) = v := by
      rcases follow_runs spec ran with ⟨_, impossible, _⟩ | ⟨_, _, unheard⟩
      · cases impossible
      · exact unheard
    obtain ⟨answer, heard, outcome⟩ := confirm_course goesOn uploading linked
    refine ⟨answer, by rw [View.follow_append, silent, heard], outcome.imp_left fun ⟨confirmed, armed⟩ => ?_⟩
    exact ⟨rest, rfl, confirmed, armed⟩
  · rcases follow_runs spec ran with ⟨_, same, heard⟩ | ⟨impossible, _⟩
    · obtain rfl := Except.error.inj same
      refine ⟨_, heard, .inr (((sendAll_tells pieces).kept ran).imp_left fun ⟨same, calm⟩ => ?_)⟩
      exact ⟨congrArg Client.state same, calm⟩
    · cases impossible

theorem write_course {payload : List Byte} {r : Except LinkError Unit}
    (runs : Task.Runs (write payload) c calls r c') (ready : v.line = .ready) : Course c v calls c' := by
  unfold write at runs
  rcases Task.runs_bind.mp runs with ⟨before, after, _, mid, rfl, ran, goesOn⟩ | ⟨e, rfl, ran⟩
  · obtain ⟨rfl, rfl, passed⟩ := require_follows ran
    obtain ⟨_, could⟩ := passed rfl
    dsimp only at goesOn
    split at goesOn
    · obtain ⟨rfl, _, rfl⟩ := Task.runs_throw.mp goesOn
      exact .idle rfl rfl
    · rename_i fits
      rcases transact_course (.write (.ofNat 32 payload.length)) goesOn ready
        (by simp [Frame.command]) could with course | ⟨f, talk, rest, rfl, met, connected, heard, streamed⟩
      · exact course
      · obtain rfl := f.eq_ack met
        obtain ⟨connection, linked⟩ := Option.isSome_iff_exists.mp connected
        obtain ⟨answer, answered, outcome⟩ :=
          stream_course (v := v.follow talk) streamed (by rw [heard]; rfl) linked
        have whole : v.follow (talk ++ rest) =
            ⟨.ready, v.events ++ exchange (.write (.ofNat 32 payload.length)) .ack ++ [.answered answer]⟩ := by
          rw [View.follow_append, answered, heard]
        have range : payload.length < 2 ^ 63 := by
          unfold maxPayload at fits
          omega
        rw [List.nil_append]
        rcases outcome with ⟨confirmation, rfl, rfl, armed⟩ | kept
        · rw [← List.append_assoc] at whole ⊢
          exact .uploaded payload could ⟨connection, talk, chunksOf mid.chunkBytes payload, confirmation, rfl,
            chunksOf_flatten _ range, Nat.not_lt.mp fits, heard, whole⟩ armed
        · exact .refused (.ofNat 32 payload.length) answer could whole kept
  · obtain ⟨rfl, rfl, _⟩ := require_follows ran
    exact .idle rfl rfl

/-! ### Every call -/

theorem poll_course {atChange : Bool} {r : Except LinkError StatusFrame}
    (runs : Task.Runs (poll atChange) c calls r c') (ready : v.line = .ready) : Course c v calls c' := by
  cases atChange with
  | true =>
    refine asking_course .statusIrq runs ready rfl rfl (by decide) (by decide)
      fun f calls r c' ended => ?_
    obtain ⟨rfl, _, rfl⟩ := Task.runs_pure.mp (Task.runs_modify (f := fun _ => pure _).mp ended)
    exact ⟨rfl, rfl⟩
  | false =>
    refine asking_course .status runs ready rfl rfl (by decide) (by decide)
      fun f calls r c' ended => ?_
    obtain ⟨rfl, _, rfl⟩ := Task.runs_pure.mp (Task.runs_modify (f := fun _ => pure _).mp ended)
    exact ⟨rfl, rfl⟩

theorem attach_connects {connection : ConnectionId} {r : Except LinkError Unit}
    (runs : Task.Runs (attach connection) c calls r c') : c'.state = .connected := by
  unfold attach at runs
  rcases Task.runs_bind.mp runs with ⟨_, _, _, _, _, _, attaching⟩ | ⟨_, _, dropping⟩
  · obtain ⟨_, _, rfl⟩ := Task.runs_pure.mp (Task.runs_modify (f := pure).mp attaching)
    rfl
  · cases (dropConnection_runs dropping).1

theorem close_leaves {r : Except LinkError Unit} (runs : Task.Runs close c calls r c') :
    c'.state = .disconnected := by
  unfold close at runs
  replace runs := Task.runs_get.mp runs
  split at runs
  · rename_i gone
    obtain ⟨_, _, rfl⟩ := Task.runs_pure.mp runs
    simpa [isConnected] using gone
  · rcases Task.runs_tryCatch.mp runs with ⟨_, rfl, ran⟩ | ⟨_, _, e, mid, _, _, handled⟩
    · rcases Task.runs_bind.mp ran with ⟨_, _, _, _, _, _, dropping⟩ | ⟨_, impossible, _⟩
      · exact congrArg Client.state (dropConnection_runs dropping).2.2
      · cases impossible
    · rcases Task.runs_bind.mp handled with ⟨_, _, _, last, _, dropping, throwing⟩ | ⟨_, _, dropping⟩
      · obtain ⟨_, _, rfl⟩ := Task.runs_throw.mp throwing
        exact congrArg Client.state (dropConnection_runs dropping).2.2
      · cases (dropConnection_runs dropping).1

theorem abort_leaves {r : Except LinkError Unit} (runs : Task.Runs abort c calls r c') :
    c'.state = .disconnected := by
  unfold abort at runs
  replace runs := Task.runs_get.mp runs
  split at runs
  · rename_i gone
    obtain ⟨_, _, rfl⟩ := Task.runs_pure.mp runs
    simpa [isConnected] using gone
  · rcases Task.runs_bind.mp runs with ⟨_, _, _, _, _, _, closing⟩ | ⟨_, _, stopping⟩
    · obtain ⟨_, _, closed⟩ := runs_ignoringErrors closing
      exact close_leaves closed
    · cases (runs_ignoringErrors stopping).1

end Client

open Client

/-- A change of the client that leaves its state says nothing on the line. -/
theorem Client.Course.setting {c c' : Client} {calls : Calls} {v : View} {r : Except LinkError Unit}
    {g : Client → Client} (state : (g c).state = c.state)
    (runs : Task.Runs (modify g : LinkM PUnit) c calls r c') : Course c v calls c' := by
  obtain ⟨rfl, _, rfl⟩ := Task.runs_pure.mp (Task.runs_modify (f := pure).mp runs)
  exact .idle state rfl

theorem ClientCall.course {call : ClientCall} {c c' : Client} {calls : Calls} {v : View}
    {r : Except LinkError Unit} (runs : Task.Runs call.perform c calls r c') (ready : v.line = .ready)
    (stays : ∀ connection, call ≠ .attach connection) : Course c v calls c' := by
  cases call with
  | attach connection => exact absurd rfl (stays connection)
  | setChunkBytes bytes => exact .setting rfl runs
  | setPolicy policy => exact .setting rfl runs
  | openBoard =>
    refine asking_course .openBoard runs ready rfl rfl (by decide) (by decide) fun f calls r c' ended => ?_
    replace ended := Task.runs_get.mp ended
    show calls = [] ∧ c'.state = if c.state = .connected then .opened else c.state
    split at ended
    · rename_i here
      obtain ⟨rfl, _, rfl⟩ := Task.runs_pure.mp (Task.runs_modify (f := pure).mp ended)
      exact ⟨rfl, (if_pos here).symm⟩
    · rename_i further
      obtain ⟨rfl, _, rfl⟩ := Task.runs_pure.mp ended
      exact ⟨rfl, (if_neg further).symm⟩
  | reset =>
    refine asking_course .reset runs ready rfl rfl (by decide) (by decide) fun f calls r c' ended => ?_
    obtain ⟨rfl, _, rfl⟩ := Task.runs_pure.mp (Task.runs_modify (f := pure).mp ended)
    exact ⟨rfl, rfl⟩
  | configure config =>
    obtain ⟨r, ran⟩ := runs_unit runs
    refine asking_course (.config config) ran ready rfl rfl (by simp [Frame.command])
      (by simp [Frame.command]) fun f calls r c' ended => ?_
    obtain ⟨rfl, _, rfl⟩ := Task.runs_pure.mp (Task.runs_modify (f := fun _ => pure _).mp ended)
    exact ⟨rfl, rfl⟩
  | write payload => exact write_course runs ready
  | start cycles =>
    refine asking_course (.start cycles) runs ready rfl rfl (by simp [Frame.command])
      (by simp [Frame.command]) fun f calls r c' ended => ?_
    obtain ⟨rfl, _, rfl⟩ := Task.runs_pure.mp (Task.runs_modify (f := pure).mp ended)
    exact ⟨rfl, rfl⟩
  | stop =>
    refine asking_course .stop runs ready rfl rfl (by decide) (by decide) fun f calls r c' ended => ?_
    replace ended := Task.runs_get.mp ended
    show calls = [] ∧ c'.state = if c.state ≠ .connected then .opened else c.state
    split at ended
    · rename_i here
      obtain ⟨rfl, _, rfl⟩ := Task.runs_pure.mp (Task.runs_modify (f := pure).mp ended)
      exact ⟨rfl, (if_pos here).symm⟩
    · rename_i further
      obtain ⟨rfl, _, rfl⟩ := Task.runs_pure.mp ended
      exact ⟨rfl, (if_neg further).symm⟩
  | poll atChange =>
    obtain ⟨r, ran⟩ := runs_unit runs
    exact poll_course ran ready
  | summary =>
    obtain ⟨r, ran⟩ := runs_unit runs
    obtain ⟨r, ran⟩ := runs_first (fun status mid calls r c' ended => by
      replace ended : Task.Runs (pure (StatusSummary.of status.status mid.policy)) mid calls r c' := ended
      obtain ⟨uncalled, _, same⟩ := Task.runs_pure.mp ended
      exact ⟨uncalled, same⟩) ran
    exact poll_course ran ready
  | getRegister offset =>
    obtain ⟨r, ran⟩ := runs_unit runs
    refine asking_course (.getRegister ⟨offset, 0⟩) ran ready rfl rfl (by simp [Frame.command])
      (by simp [Frame.command]) fun f calls r c' ended => ?_
    split at ended
    all_goals
      obtain ⟨rfl, _, rfl⟩ := Task.runs_pure.mp ended
      exact ⟨rfl, rfl⟩
  | setRegister offset value =>
    obtain ⟨r, ran⟩ := runs_unit runs
    refine asking_course (.setRegister ⟨offset, value⟩) ran ready rfl rfl (by simp [Frame.command])
      (by simp [Frame.command]) fun f calls r c' ended => ?_
    split at ended
    all_goals
      obtain ⟨rfl, _, rfl⟩ := Task.runs_pure.mp ended
      exact ⟨rfl, rfl⟩
  | fullStatus =>
    obtain ⟨r, ran⟩ := runs_unit runs
    refine asking_course .statusFull ran ready rfl rfl (by decide) (by decide) fun f calls r c' ended => ?_
    split at ended
    all_goals
      obtain ⟨rfl, _, rfl⟩ := Task.runs_pure.mp ended
      exact ⟨rfl, rfl⟩
  | close =>
    have talks : Talks .free [.stop, .close] Client.close := (close_talks Law.free_isLenient).weaken (by simp)
    exact .left (close_leaves runs) (follow_runs (talks c v ready) runs).1
  | abort => exact .left (abort_leaves runs) (follow_runs (abort_talks Law.free_isLenient c v ready) runs).1

end Sequencer
