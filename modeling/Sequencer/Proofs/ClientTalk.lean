import Sequencer.Proofs.Exchange

/-!
What the operations of a client say on the line: one request and its answer, or nothing. Whatever the
board answers, the line is ready again afterwards.
-/
namespace Sequencer

namespace Client
variable {law : Law} {c : Client} {v : View}

theorem dropConnection_spec (ready : v.line = .ready) :
    Task.wp (linkWatch law) dropConnection (fun r _ v' => r = .ok () ∧ v' = v) c v := by
  have heard : v.hear (.ready, []) = v := by
    rw [← ready]
    exact v.hear_nothing
  unfold dropConnection
  refine Task.wp_get ?_
  split
  · refine wp_linkAsk fun answer => ⟨_, rfl, trivial, ?_⟩
    exact ⟨rfl, heard⟩
  · exact ⟨rfl, rfl⟩

/-- A result is passed on; only a fatal error changes the client. -/
theorem guarding_spec {α : Type} (result : Except LinkError α)
    (ready : ∀ e, result = .error e → v.line = .ready) :
    Task.wp (linkWatch law) (guarding result) (fun r c' v' => r = result ∧ v' = v ∧
      ((∀ e, result = .error e → e.isFatal = false) → c' = c)) c v := by
  cases result with
  | ok a => exact ⟨rfl, rfl, fun _ => rfl⟩
  | error e =>
    simp only [guarding]
    split
    · rename_i fatal
      refine Task.seq (dropConnection_spec (ready e rfl)) (fun _ c' v' post => ?_) fun e c' v' post => ?_
      · exact ⟨rfl, post.2, fun harmless => absurd (harmless e rfl) (by simp [fatal])⟩
      · cases post.1
    · exact ⟨rfl, rfl, fun _ => rfl⟩

theorem guarding_ok {α : Type} {a : α} :
    Task.wp (linkWatch law) (guarding (.ok a)) (fun r c' v' => r = .ok a ∧ v' = v ∧ c' = c) c v :=
  ⟨rfl, rfl, rfl⟩

theorem require_spec (operation : Command) (allowed : List LinkState) :
    Task.wp (linkWatch law) (require operation allowed) (fun r c' v' => c' = c ∧ v' = v ∧
      ((r = .ok () ∧ c.state ≠ .disconnected ∧ c.state ∈ allowed) ∨
      ∃ e, r = .error e ∧ ¬c.Can allowed)) c v := by
  unfold require
  refine Task.wp_get ?_
  dsimp only
  by_cases gone : c.state = .disconnected
  · rw [if_pos gone]
    exact ⟨rfl, rfl, .inr ⟨_, rfl, fun can => can.linked.inUse gone⟩⟩
  · rw [if_neg gone]
    by_cases here : c.state ∈ allowed
    · rw [if_neg (not_not_intro here)]
      exact ⟨rfl, rfl, .inl ⟨rfl, gone, here⟩⟩
    · rw [if_pos here]
      exact ⟨rfl, rfl, .inr ⟨_, rfl, fun can => here can.here⟩⟩

/-- A request is sent, unless there is no connection. -/
theorem sendBytes_request (lenient : law.IsLenient) (ready : v.line = .ready) {request : Frame}
    (expected : Command) (short : request.command ≠ .statusFullReply)
    (may : law v.events (.requested request)) :
    Task.wp (linkWatch law) (sendBytes request.encode) (fun r c' v' =>
      (∃ e, r = .error e ∧ v.Missed request expected c.connection.isSome c c' v') ∨
      (r = .ok () ∧ c' = c ∧ c.connection.isSome ∧
        v' = ⟨.asked request, v.events ++ [.requested request]⟩)) c v := by
  have decoded := Frame.decode_encode short
  unfold sendBytes
  refine Task.wp_get ?_
  split
  · rename_i connection found
    have connected : c.connection.isSome := by
      rw [found]
      rfl
    refine wp_linkAsk fun (result : Except LinkError Unit) => ?_
    cases result with
    | ok u =>
      have heard : v.line.hearSend request.encode (.ok u) = (.asked request, [.requested request]) := by
        unfold Line.hearSend
        rw [ready, decoded]
      refine ⟨_, heard, ⟨may, trivial⟩, ?_⟩
      refine Task.mono guarding_ok ?_
      rintro r c' v' ⟨rfl, rfl, rfl⟩
      exact .inr ⟨rfl, rfl, connected, rfl⟩
    | error e =>
      have heard : v.line.hearSend request.encode (.error e) =
          (.ready, [.requested request, .answered (.error e)]) := by
        unfold Line.hearSend
        rw [ready, decoded]
      refine ⟨_, heard, ⟨may, lenient.allows_answer _ _⟩, ?_⟩
      refine Task.mono (guarding_spec _ fun _ _ => rfl) ?_
      rintro r c' v' ⟨rfl, rfl, _⟩
      exact .inl ⟨e, rfl, .failed connected rfl (fun _ absent => by cases absent) fun never => never.elim⟩
  · rename_i absent
    refine Task.mono (guarding_spec _ fun _ _ => ready) ?_
    rintro r c' v' ⟨rfl, rfl, same⟩
    refine .inl ⟨_, rfl, .unsent (by simp [absent]) (same ?_) rfl⟩
    rintro e failed
    rw [← Except.error.inj failed]
    rfl

/-- A piece of the stream. -/
theorem sendBytes_stream (lenient : law.IsLenient) (uploading : v.line = .uploading)
    (connected : c.connection.isSome) (bytes : List Byte) :
    Task.wp (linkWatch law) (sendBytes bytes) (fun r c' v' =>
      (∃ e, r = .error e ∧ v' = ⟨.ready, v.events ++ [.answered (.error e)]⟩) ∨
      (r = .ok () ∧ c' = c ∧ v' = v)) c v := by
  obtain ⟨connection, found⟩ := Option.isSome_iff_exists.mp connected
  unfold sendBytes
  refine Task.wp_get ?_
  rw [found]
  refine wp_linkAsk fun (result : Except LinkError Unit) => ?_
  rw [uploading]
  cases result with
  | ok u =>
    refine ⟨_, rfl, trivial, ?_⟩
    refine Task.mono guarding_ok ?_
    rintro r c' v' ⟨rfl, rfl, rfl⟩
    have unheard : v.hear (.uploading, []) = v := by
      rw [← uploading]
      exact v.hear_nothing
    exact .inr ⟨rfl, rfl, unheard⟩
  | error e =>
    refine ⟨_, rfl, lenient.allows_answer _ _, ?_⟩
    refine Task.mono (guarding_spec _ fun _ _ => rfl) ?_
    rintro r c' v' ⟨rfl, rfl, _⟩
    exact .inl ⟨e, rfl, rfl⟩

/-- The answer, whole or an error in its place, is one event. -/
theorem readFrame_spec (lenient : law.IsLenient) {request : Option Frame}
    (awaits : v.line.Awaits request) (connection : ConnectionId) :
    (readFrame connection).wp (linkWatch law) (fun answer v' =>
      v' = ⟨Line.afterAnswer request answer, v.events ++ [.answered answer]⟩) v := by
  have failure : ∀ e, v.line.hearReceive (.error e) =
      (Line.afterAnswer request (.error e), [.answered (.error e)]) := by
    intro e
    cases request with
    | none => rw [show v.line = .uploading from awaits]; rfl
    | some request =>
      rw [show v.line = .asked request from awaits]
      cases request <;> rfl
  have head : ∀ header, v.line.hearReceive (.ok header) = Line.hearHeader request header := by
    intro header
    cases request with
    | none => rw [show v.line = .uploading from awaits]; rfl
    | some request => rw [show v.line = .asked request from awaits]; rfl
  have closed : ∀ e, Line.afterAnswer request (.error e) = .ready := by
    intro e
    cases request with
    | none => rfl
    | some request => cases request <;> rfl
  refine wp_linkCall fun (first : Except LinkError (List Byte)) => ?_
  cases first with
  | error e => exact ⟨_, failure e, lenient.allows_answer _ _, rfl⟩
  | ok header =>
    refine ⟨_, head header, ?_⟩
    unfold Line.hearHeader Line.checkHeader
    dsimp only
    cases Header.check (Header.ofBytes (header.getD 0 0) (header.getD 1 0)) with
    | error e =>
      refine ⟨lenient.allows_answer _ _, ?_⟩
      show _ = _
      rw [closed]
      rfl
    | ok legal =>
      obtain ⟨command, size⟩ := legal
      refine ⟨trivial, ?_⟩
      refine wp_linkCall fun (second : Except LinkError (List Byte)) => ?_
      cases second with
      | error e =>
        refine ⟨_, rfl, lenient.allows_answer _ _, ?_⟩
        show _ = _
        simp only [closed, View.hear, List.append_nil]
        rfl
      | ok rest =>
        refine ⟨_, rfl, lenient.allows_answer _ _, ?_⟩
        show _ = _
        simp only [View.hear, List.append_nil]
        rfl

theorem expect_eq_ok_iff {request expected : Command} {answer : Except LinkError Frame} {f : Frame} :
    (answer >>= expect request expected) = .ok f ↔ answer = .ok f ∧ f.command = expected := by
  cases answer with
  | error e => simp [bind, Except.bind]
  | ok g =>
    simp only [bind, Except.bind, expect, Except.ok.injEq]
    constructor
    · intro success
      split at success
      · rename_i same
        cases success
        exact ⟨rfl, same⟩
      · split at success <;> cases success
    · rintro ⟨rfl, same⟩
      exact if_pos same

/-- A refusal is no fatal error. -/
theorem harmless_of_suits {request expected : Command} {answer : Except LinkError Frame} {e : LinkError}
    (suits : Suits expected answer) (failed : (answer >>= expect request expected) = .error e) :
    e.isFatal = false := by
  cases answer with
  | error _ => cases suits
  | ok f =>
    simp only [bind, Except.bind, expect] at failed
    split at failed
    · cases failed
    · rename_i different
      rw [if_pos (suits.resolve_left different)] at failed
      rw [← Except.error.inj failed]
      rfl

/-- Only an acknowledged `write` leaves the line open, and `expect` lets that pass. -/
theorem afterAnswer_of_error {request : Option Frame} {command expected : Command}
    {answer : Except LinkError Frame} {e : LinkError}
    (fits : ∀ count, request = some (.write count) → expected = .ack)
    (failed : (answer >>= expect command expected) = .error e) :
    Line.afterAnswer request answer = .ready := by
  unfold Line.afterAnswer
  split
  · rename_i count
    rw [fits count rfl] at failed
    cases failed
  · rfl

theorem receive_spec (lenient : law.IsLenient) {request : Option Frame}
    (awaits : v.line.Awaits request) (connected : c.connection.isSome) {command expected : Command}
    (fits : ∀ count, request = some (.write count) → expected = .ack) :
    Task.wp (linkWatch law) (receive command expected) (fun r c' v' =>
      ∃ answer, v' = ⟨Line.afterAnswer request answer, v.events ++ [.answered answer]⟩ ∧
        ((∃ e, r = .error e ∧ Line.afterAnswer request answer = .ready ∧
          (∀ f, answer = .ok f → f.command ≠ expected) ∧ (Suits expected answer → c' = c)) ∨
        (∃ f, r = .ok f ∧ answer = .ok f ∧ f.command = expected ∧ c' = c))) c v := by
  obtain ⟨connection, found⟩ := Option.isSome_iff_exists.mp connected
  unfold receive
  refine Task.wp_get ?_
  rw [found]
  refine Task.wp_lift (Program.wp_mono (fun answer v' heard => ?_)
    (readFrame_spec lenient awaits connection))
  subst heard
  refine Task.mono (guarding_spec _ fun e failed => afterAnswer_of_error fits failed) ?_
  rintro r c' v' ⟨rfl, rfl, same⟩
  refine ⟨answer, rfl, ?_⟩
  cases result : answer >>= expect command expected with
  | error e =>
    refine .inl ⟨e, rfl, afterAnswer_of_error fits result, fun f isAnswer isExpected => ?_, fun suits => ?_⟩
    · rw [expect_eq_ok_iff.mpr ⟨isAnswer, isExpected⟩] at result
      cases result
    · exact same fun e' failed => harmless_of_suits suits failed
  | ok f =>
    obtain ⟨isAnswer, isExpected⟩ := expect_eq_ok_iff.mp result
    refine .inr ⟨f, rfl, isAnswer, isExpected, same fun e failed => ?_⟩
    rw [result] at failed
    cases failed

/-- A request and its answer; the line stays open for a stream that was announced. -/
theorem transact_spec (lenient : law.IsLenient) (ready : v.line = .ready) {request : Frame}
    {expected : Command} (short : request.command ≠ .statusFullReply)
    (may : law v.events (.requested request))
    (fits : ∀ count, request = .write count → expected = .ack) :
    Task.wp (linkWatch law) (transact request expected) (fun r c' v' =>
      (∃ e, r = .error e ∧ v.Missed request expected c.connection.isSome c c' v') ∨
      (∃ f, r = .ok f ∧ f.command = expected ∧ c' = c ∧ c.connection.isSome ∧
        v' = ⟨Line.afterAnswer (some request) (.ok f),
          v.events ++ [.requested request, .answered (.ok f)]⟩)) c v := by
  unfold transact
  refine Task.seq (sendBytes_request lenient ready expected short may) ?_ ?_
  · rintro _ c' v' (⟨e, impossible, _⟩ | ⟨_, rfl, connected, rfl⟩)
    · cases impossible
    · have awaits : Line.Awaits (.asked request) (some request) := rfl
      refine Task.mono (receive_spec lenient awaits connected fun count same => fits count ?_) ?_
      · exact Option.some.inj same
      · rintro r c'' v'' ⟨answer, rfl, ⟨e, rfl, line, unmet, kept⟩ | ⟨f, rfl, rfl, command, rfl⟩⟩
        · refine .inl ⟨e, rfl, .failed connected ?_ unmet kept⟩
          rw [line]
          simp
        · refine .inr ⟨f, rfl, command, rfl, connected, ?_⟩
          simp
  · rintro e c' v' (⟨e', _, missed⟩ | ⟨impossible, _⟩)
    · exact .inl ⟨e, rfl, missed⟩
    · cases impossible

/-- Most operations are one request; what they do with the answer is theirs alone. -/
theorem request_spec (lenient : law.IsLenient) (ready : v.line = .ready) {request : Frame}
    {operation expected : Command} {allowed : List LinkState} {α : Type} {value : Frame → α}
    {tail : Frame → LinkM α} (short : request.command ≠ .statusFullReply)
    (noStream : request.command ≠ .write) (may : law v.events (.requested request))
    (alone : ∀ f c v, Task.wp (linkWatch law) (tail f) (fun r c' v' => r = .ok (value f) ∧ v' = v ∧
      (c.IsLinked → c'.IsLinked)) c v) :
    Task.wp (linkWatch law) (require operation allowed >>= fun _ => transact request expected >>= tail)
      (v.Asks request expected allowed value c) c v := by
  have notWrite : ∀ count, request ≠ .write count := by
    rintro count rfl
    exact noStream rfl
  refine Task.seq (require_spec operation allowed) ?_ ?_
  · rintro _ c₁ v₁ ⟨rfl, rfl, ⟨_, inUse, here⟩ | ⟨e, impossible, _⟩⟩
    · have can : c₁.connection.isSome ↔ c₁.Can allowed :=
        ⟨fun connected => ⟨⟨connected, inUse⟩, here⟩, fun can => can.linked.connected⟩
      refine Task.seq (transact_spec lenient ready short may fun count same =>
        absurd same (notWrite count)) ?_ ?_
      · rintro f c₂ v₂ (⟨e, impossible, _⟩ | ⟨g, same, command, rfl, connected, rfl⟩)
        · cases impossible
        · obtain rfl := Except.ok.inj same
          refine Task.mono (alone _ _ _) ?_
          rintro r c₃ v₃ ⟨rfl, rfl, linked⟩
          refine ⟨.ok f, .answered (can.mp connected) (linked ⟨connected, inUse⟩) command ?_, rfl⟩
          unfold Line.afterAnswer
          split
          · rename_i count isWrite _
            exact absurd (Option.some.inj isWrite) (notWrite count)
          · rfl
      · rintro e c₂ v₂ (⟨e', _, missed⟩ | ⟨g, impossible, _⟩)
        · exact ⟨.error e, .missed (missed.imp can), rfl⟩
        · cases impossible
    · cases impossible
  · rintro e c₁ v₁ ⟨rfl, rfl, ⟨impossible, _⟩ | ⟨e', _, unable⟩⟩
    · cases impossible
    · exact ⟨.error e, .missed (.unsent unable rfl rfl), rfl⟩

section
variable (lenient : law.IsLenient) (ready : v.line = .ready)
include lenient ready

theorem openBoard_spec : Task.wp (linkWatch law) openBoard
    (v.Asks .openBoard .ack anyConnected (fun _ => ()) c) c v := by
  refine request_spec lenient ready (by decide) (by decide) (lenient.requested _ _ (by decide)) ?_
  intro f c v
  refine Task.wp_get ?_
  split
  · exact ⟨rfl, rfl, fun linked => ⟨linked.connected, by simp⟩⟩
  · exact ⟨rfl, rfl, id⟩

theorem reset_spec : Task.wp (linkWatch law) reset
    (v.Asks .reset .ack anyConnected (fun _ => ()) c) c v := by
  refine request_spec lenient ready (by decide) (by decide) (lenient.requested _ _ (by decide)) ?_
  intro f c v
  exact ⟨rfl, rfl, fun linked => ⟨linked.connected, by simp⟩⟩

theorem configure_spec (config : ConfigFrame) : Task.wp (linkWatch law) (configure config)
    (v.Asks (.config config) .config [.opened, .configured, .armed] (fun f => match f with
      | .config applied => applied
      | _ => config) c) c v := by
  refine request_spec lenient ready (by simp [Frame.command]) (by simp [Frame.command])
    (lenient.requested _ _ (by simp [Frame.command])) ?_
  intro f c v
  exact ⟨rfl, rfl, fun linked => ⟨linked.connected, by simp⟩⟩

/-- The one request that a law may restrict. -/
theorem start_spec (cycles : Word) (may : law v.events (.requested (.start cycles))) :
    Task.wp (linkWatch law) (start cycles) (v.Asks (.start cycles) .ack [.armed] (fun _ => ()) c) c v := by
  refine request_spec lenient ready (by simp [Frame.command]) (by simp [Frame.command]) may ?_
  intro f c v
  exact ⟨rfl, rfl, fun linked => ⟨linked.connected, by simp⟩⟩

theorem stop_spec : Task.wp (linkWatch law) stop (v.Asks .stop .ack anyConnected (fun _ => ()) c) c v := by
  refine request_spec lenient ready (by decide) (by decide) (lenient.requested _ _ (by decide)) ?_
  intro f c v
  refine Task.wp_get ?_
  split
  · exact ⟨rfl, rfl, fun linked => ⟨linked.connected, by simp⟩⟩
  · exact ⟨rfl, rfl, id⟩

theorem poll_spec : Task.wp (linkWatch law) (poll false)
    (v.Asks .status .statusReply anyConnected (fun f => match f with
      | .statusReply s | .statusIrqReply s => s
      | _ => {}) c) c v := by
  refine request_spec lenient ready (by decide) (by decide) (lenient.requested _ _ (by decide)) ?_
  intro f c v
  exact ⟨rfl, rfl, fun linked => ⟨linked.connected, linked.inUse⟩⟩

theorem getRegister_spec (offset : Word) : Task.wp (linkWatch law) (getRegister offset)
    (v.Asks (.getRegister ⟨offset, 0⟩) .getRegister anyConnected (fun f => match f with
      | .getRegister r => r.value
      | _ => 0) c) c v := by
  refine request_spec lenient ready (by simp [Frame.command]) (by simp [Frame.command])
    (lenient.requested _ _ (by simp [Frame.command])) ?_
  intro f c v
  cases f <;> exact ⟨rfl, rfl, id⟩

theorem setRegister_spec (offset value : Word) : Task.wp (linkWatch law) (setRegister offset value)
    (v.Asks (.setRegister ⟨offset, value⟩) .setRegister anyConnected (fun f => match f with
      | .setRegister r => r.value
      | _ => value) c) c v := by
  refine request_spec lenient ready (by simp [Frame.command]) (by simp [Frame.command])
    (lenient.requested _ _ (by simp [Frame.command])) ?_
  intro f c v
  cases f <;> exact ⟨rfl, rfl, id⟩

end

/-- The stream goes out piece by piece, until a piece does not get through. -/
theorem sendAll_stream (lenient : law.IsLenient) (pieces : List (List Byte))
    (uploading : v.line = .uploading) (connected : c.connection.isSome) :
    Task.wp (linkWatch law) (pieces.forM sendBytes) (fun r c' v' =>
      (∃ e, r = .error e ∧ v' = ⟨.ready, v.events ++ [.answered (.error e)]⟩) ∨
      (r = .ok () ∧ c' = c ∧ v' = v)) c v := by
  induction pieces with
  | nil => exact .inr ⟨rfl, rfl, rfl⟩
  | cons piece rest ih =>
    show Task.wp _ (sendBytes piece >>= fun _ => rest.forM sendBytes) _ _ _
    refine Task.seq (sendBytes_stream lenient uploading connected piece) ?_ ?_
    · rintro _ c' v' (⟨e, impossible, _⟩ | ⟨_, rfl, rfl⟩)
      · cases impossible
      · exact ih
    · rintro e c' v' (⟨e', same, rfl⟩ | ⟨impossible, _⟩)
      · exact .inl ⟨e', same, rfl⟩
      · cases impossible

section
variable (lenient : law.IsLenient)
include lenient

/-- The stream with its answer, once it is announced. -/
theorem upload_spec (pieces : List (List Byte)) (uploading : v.line = .uploading)
    (linked : c.IsLinked) :
    Task.wp (linkWatch law) (pieces.forM sendBytes >>= fun _ => receive .write .ack >>= fun _ =>
        setState .armed)
      (fun r c' v' => ∃ answer, v' = ⟨.ready, v.events ++ [.answered answer]⟩ ∧
        (r.toBool ↔ answer = .ok .ack) ∧ (Suits .ack answer → c'.IsLinked)) c v := by
  have awaits : v.line.Awaits none := uploading
  refine Task.seq (sendAll_stream lenient pieces uploading linked.connected) ?_ ?_
  · rintro _ c' v' (⟨e, impossible, _⟩ | ⟨_, rfl, rfl⟩)
    · cases impossible
    · refine Task.seq (receive_spec lenient awaits linked.connected fun _ absent => by cases absent) ?_ ?_
      · rintro f c₂ v₂ ⟨answer, rfl, ⟨e, impossible, _⟩ | ⟨g, _, rfl, command, rfl⟩⟩
        · cases impossible
        · obtain rfl := g.eq_ack command
          exact ⟨_, rfl, ⟨fun _ => rfl, fun _ => rfl⟩, fun _ => ⟨linked.connected, by simp⟩⟩
      · rintro e c₂ v₂ ⟨answer, rfl, ⟨_, _, _, unmet, kept⟩ | ⟨_, impossible, _⟩⟩
        · refine ⟨answer, rfl, ⟨nofun, fun acknowledged => ?_⟩, fun suits => ?_⟩
          · exact absurd rfl (unmet .ack acknowledged)
          · rw [kept suits]
            exact linked
        · cases impossible
  · rintro e c' v' (⟨_, _, rfl⟩ | ⟨impossible, _⟩)
    · exact ⟨_, rfl, ⟨nofun, nofun⟩, fun never => never.elim⟩
    · cases impossible

/-- How the upload of a stream went: it was not announced, or it was, and then had its answer. -/
inductive Written (c : Client) (v : View) (r : Except LinkError Unit) (c' : Client) (v' : View) : Prop where
  | missed {count : Word} (failed : r.toBool = false)
      (missed : v.Missed (.write count) .ack (c.Can [.configured, .armed]) c c' v')
  | refused (failed : r.toBool = false) (same : c' = c) (unheard : v' = v)
  | streamed {count : Word} {answer : Except LinkError Frame} (could : c.IsLinked)
      (heard : v' = ⟨.ready, v.events ++ exchange (.write count) .ack ++ [.answered answer]⟩)
      (outcome : r.toBool ↔ answer = .ok .ack) (linked : Suits .ack answer → c'.IsLinked)

/-- What an upload sends is no request but its first frame. -/
theorem write_spec (ready : v.line = .ready) (payload : List Byte) :
    Task.wp (linkWatch law) (write payload) (Written c v) c v := by
  unfold write
  refine Task.seq (require_spec _ _) ?_ ?_
  · rintro _ c v ⟨rfl, rfl, ⟨_, inUse, here⟩ | ⟨e, impossible, _⟩⟩
    · dsimp only
      split
      · exact .refused rfl rfl rfl
      · have can : c.connection.isSome ↔ c.Can [.configured, .armed] :=
          ⟨fun connected => ⟨⟨connected, inUse⟩, here⟩, fun can => can.linked.connected⟩
        refine Task.seq (transact_spec lenient ready (by simp [Frame.command])
          (lenient.requested _ _ (by simp [Frame.command])) fun _ _ => rfl) ?_ ?_
        · rintro f c₁ v₁ (⟨e, impossible, _⟩ | ⟨g, _, command, rfl, connected, rfl⟩)
          · cases impossible
          · obtain rfl := g.eq_ack command
            refine Task.wp_get (Task.mono (upload_spec lenient _ rfl ⟨connected, inUse⟩) ?_)
            rintro r c₂ v₂ ⟨answer, rfl, outcome, linked⟩
            exact .streamed ⟨connected, inUse⟩ rfl outcome linked
        · rintro e c₁ v₁ (⟨_, _, missed⟩ | ⟨_, impossible, _⟩)
          · exact .missed rfl (missed.imp can)
          · cases impossible
    · cases impossible
  · rintro e c₁ v₁ ⟨rfl, rfl, _⟩
    exact .refused rfl rfl rfl

end

end Client

end Sequencer
