import Sequencer.Proofs.BoardTalk
import Sequencer.Proofs.ClientPolicy

/-!
A client and its simulated board never fall out of step.

Between two calls the connection is idle and the board expects nothing more of a stream; an armed client has
a board that holds the stream of the last upload. Every call keeps this up, at whatever time the board hears
of it, so that no call fails but for the state of the client, a refusal, or a stream that is too long.
-/
namespace Sequencer

/-- Errors that belong to the protocol: a call out of place, and a refusal. -/
def LinkError.IsMild : LinkError → Prop
  | invalidState _ _ | refused _ => True
  | _ => False

theorem LinkError.isMild_of_ok {α : Type} {a : α} : ∀ e : LinkError, Except.ok a = .error e → e.IsMild := by
  rintro _ ⟨⟩

/-- A client in step with its board, with the stream of the last upload. -/
structure Client.InStep (k : ConnectionId) (last : Option (List Byte)) (c : Client) (s : Timed) : Prop where
  connected : c.state ≠ .disconnected
  linked : c.connection = some k
  idle : s.Has k s.network.board {}
  healthy : s.network.board.Healthy
  settled : s.network.board.pending = 0
  armed : c.state = .armed → last = some s.network.board.data ∧ s.network.board.times ≠ #[]

namespace Client
variable {α β : Type} {k : ConnectionId} {last : Option (List Byte)} {c c' : Client} {s s' : Timed}
  {p : LinkM α} {f : α → LinkM β} {request : Frame}

/-- A program that keeps client and board in step and uploads nothing. -/
def Keeps (p : LinkM α) : Prop := ∀ ⦃k last c s⦄, InStep k last c s → ∃ r c' s',
  p.runOn Timed.answer c s = (r, c', s') ∧ InStep k last c' s' ∧ ∀ e, r = .error e → e.IsMild

theorem InStep.of_has {b : SimulatedBoard} (has : s.Has k b {}) (connected : c.state ≠ .disconnected)
    (linked : c.connection = some k) (healthy : b.Healthy) (settled : b.pending = 0)
    (armed : c.state = .armed → last = some b.data ∧ b.times ≠ #[]) : InStep k last c s := by
  obtain rfl := has.board
  exact ⟨connected, linked, has, healthy, settled, armed⟩

/-- The client has changed, and is not armed unless it was. -/
theorem InStep.client (step : InStep k last c s) (linked : c'.connection = c.connection)
    (state : c'.state = c.state ∨ c'.state ≠ .disconnected ∧ c'.state ≠ .armed) : InStep k last c' s := by
  obtain ⟨connected, linked', idle, healthy, settled, armed⟩ := step
  rcases state with same | ⟨connected', unarmed⟩
  · exact ⟨same ▸ connected, linked.trans linked', idle, healthy, settled, fun there => armed (same ▸ there)⟩
  · exact ⟨connected', linked.trans linked', idle, healthy, settled, fun there => absurd there unarmed⟩

/-- The board has heard of something that does not touch its stream. -/
theorem InStep.board {b : SimulatedBoard} (step : InStep k last c s) (has : s'.Has k b {})
    (keeps : s.network.board.Keeps b) : InStep k last c s' := by
  refine .of_has has step.connected step.linked ⟨?_, ?_⟩ ?_ ?_
  · exact keeps.refuses.trans step.healthy.refuses
  · exact keeps.ignores.trans step.healthy.ignores
  · exact keeps.pending.trans step.settled
  · rw [keeps.data, keeps.times]
    exact step.armed

theorem InStep.require (step : InStep k last c s) {allowed : List LinkState} (here : c.state ∈ allowed)
    (operation : Command) : (require operation allowed).runOn Timed.answer c s = (.ok (), c, s) :=
  Timed.runOn_require step.connected here operation

namespace Keeps

theorem pure {a : α} : Keeps (Pure.pure a : LinkM α) :=
  fun _ _ c s step => ⟨.ok a, c, s, rfl, step, LinkError.isMild_of_ok⟩

theorem bind (first : Keeps p) (next : ∀ a, Keeps (f a)) : Keeps (p >>= f) := by
  intro k last c s step
  obtain ⟨r, c₁, s₁, ran, step₁, mild⟩ := first step
  cases r with
  | ok a =>
    obtain ⟨r, c₂, s₂, ran', step₂, mild⟩ := next a step₁
    exact ⟨r, c₂, s₂, (LinkM.runOn_bind_ok ran).trans ran', step₂, mild⟩
  | error e =>
    refine ⟨.error e, c₁, s₁, LinkM.runOn_bind_error ran, step₁, ?_⟩
    rintro _ ⟨⟩
    exact mild e rfl

theorem get {f : Client → LinkM β} (next : ∀ c, Keeps (f c)) : Keeps (MonadState.get >>= f) :=
  fun _ _ c _ step => next c step

theorem modify {g : Client → Client} (linked : ∀ c, (g c).connection = c.connection)
    (state : ∀ c, (g c).state = c.state ∨ (g c).state ≠ .disconnected ∧ (g c).state ≠ .armed) :
    Keeps (modify g) :=
  fun _ _ c s step => ⟨.ok ⟨⟩, g c, s, rfl, step.client (linked c) (state c), LinkError.isMild_of_ok⟩

theorem setState {state : LinkState} (connected : state ≠ .disconnected) (unarmed : state ≠ .armed) :
    Keeps (setState state) :=
  modify (fun _ => rfl) fun _ => .inr ⟨connected, unarmed⟩

theorem require (operation : Command) (allowed : List LinkState) : Keeps (require operation allowed) := by
  intro k last c s step
  by_cases here : c.state ∈ allowed
  · exact ⟨.ok (), c, s, step.require here operation, step, LinkError.isMild_of_ok⟩
  · refine ⟨.error (.invalidState operation c.state), c, s, ?_, step, ?_⟩
    · unfold Client.require
      rw [LinkM.runOn_get, if_neg step.connected, if_pos here]
      rfl
    · rintro _ ⟨⟩
      trivial

/-- A request that has nothing to do with the stream. -/
theorem transact (request : Frame) (whole : request.IsWhole)
    (mild : request.command ∉ [.reset, .write, .close]) :
    Keeps (transact request request.reply) := by
  intro k last c s step
  simp only [List.mem_cons, List.not_mem_nil, or_false, not_or] at mild
  obtain ⟨s', now, ran, has⟩ := step.idle.transact step.linked step.healthy step.settled request whole mild.2.2
  obtain ⟨data, times, pending, refuses, ignores⟩ :=
    (s.network.board.note request.command).perform_keeps now mild.1 mild.2.1
  refine ⟨_, c, s', ran, step.board has ⟨data, times, pending, refuses, ignores⟩, fun e refused => ?_⟩
  rw [Timed.expect_refused (Timed.perform_suits _ _ _) e refused]
  trivial

/-- An operation that is one request, in some states only. -/
theorem asking {next : Frame → LinkM α} (operation : Command) (allowed : List LinkState) (request : Frame)
    (whole : request.IsWhole) (mild : request.command ∉ [.reset, .write, .close])
    (tail : ∀ f, Keeps (next f)) :
    Keeps (Client.require operation allowed >>= fun _ => Client.transact request request.reply >>= next) :=
  bind (require operation allowed) fun _ => bind (transact request whole mild) tail

theorem openBoard : Keeps openBoard := by
  refine asking _ _ .openBoard trivial (by decide) fun _ => get fun _ => ?_
  split
  · exact setState (by decide) (by decide)
  · exact pure

theorem configure (config : ConfigFrame) : Keeps (configure config) :=
  asking _ _ (.config config) trivial (by simp [Frame.command]) fun _ =>
    bind (modify (fun _ => rfl) fun _ => .inr (by simp)) fun _ => pure

theorem start (cycles : Word) : Keeps (start cycles) :=
  asking _ _ (.start cycles) trivial (by simp [Frame.command]) fun _ => setState (by decide) (by decide)

theorem stop : Keeps stop := by
  refine asking _ _ .stop trivial (by decide) fun _ => get fun _ => ?_
  split
  · exact setState (by decide) (by decide)
  · exact pure

theorem poll (atChange : Bool) : Keeps (poll atChange) := by
  refine bind (require _ _) fun _ => ?_
  dsimp only
  split
  · exact bind (transact .statusIrq trivial (by decide)) fun _ =>
      bind (modify (fun _ => rfl) fun _ => .inl rfl) fun _ => pure
  · exact bind (transact .status trivial (by decide)) fun _ =>
      bind (modify (fun _ => rfl) fun _ => .inl rfl) fun _ => pure

theorem summary : Keeps summary := bind (poll false) fun _ => get fun _ => pure

theorem getRegister (offset : Word) : Keeps (getRegister offset) := by
  refine asking _ _ (.getRegister ⟨offset, 0⟩) trivial (by simp [Frame.command]) fun f => ?_
  split <;> exact pure

theorem setRegister (offset value : Word) : Keeps (setRegister offset value) := by
  refine asking _ _ (.setRegister ⟨offset, value⟩) trivial (by simp [Frame.command]) fun f => ?_
  split <;> exact pure

theorem fullStatus : Keeps fullStatus := by
  refine asking _ _ .statusFull trivial (by decide) fun f => ?_
  split <;> exact pure

/-- A reset is never refused, and leaves a client without a stream. -/
theorem reset : Keeps reset := by
  refine bind (require _ _) fun _ => ?_
  intro k last c s step
  obtain ⟨s', now, ran, has⟩ := step.idle.transact step.linked step.healthy step.settled .reset
    trivial (by decide)
  refine ⟨.ok ⟨⟩, { c with state := .opened, applied := none }, s', ?_, ?_, LinkError.isMild_of_ok⟩
  · exact (LinkM.runOn_bind_ok ran).trans rfl
  · exact .of_has has (by simp) step.linked ⟨step.healthy.refuses, step.healthy.ignores⟩ rfl (by simp)

end Keeps

/-! ### Upload and start -/

/-- What `write` does after its checks. -/
def upload (payload : List Byte) : LinkM Unit := do
  let _ ← transact (.write (BitVec.ofNat 32 payload.length)) .ack
  (chunksOf (← get).chunkBytes payload).forM sendBytes
  let _ ← receive .write .ack
  setState .armed

/-- A stream that the board awaits arrives as it is, in pieces of any length. -/
theorem stream_runs {b : SimulatedBoard} {payload : List Byte} (has : s.Has k b {})
    (linked : c.connection = some k) (range : payload.length < 2 ^ 63) (nonempty : payload ≠ [])
    (awaited : b.pending = payload.length) :
    ∃ s', LinkM.runOn Timed.answer (do
        (chunksOf (← MonadState.get).chunkBytes payload).forM sendBytes
        let _ ← receive .write .ack
        setState .armed) c s = (.ok (), { c with state := .armed }, s') ∧ s'.Has k (b.loaded payload) {} := by
  have flat := chunksOf_flatten c.chunkBytes range
  have some_ : chunksOf c.chunkBytes payload ≠ [] := by
    intro none
    rw [none] at flat
    exact nonempty flat.symm
  obtain ⟨s₁, sent, has₁⟩ := has.sendAll linked (chunksOf_nonempty c.chunkBytes range) some_
    (by rw [flat, awaited])
  rw [flat] at has₁
  have calm : ∀ e, expect .write .ack .ack = .error e → e.isFatal = false := by
    rintro _ ⟨⟩
  obtain ⟨s₂, received, has₂⟩ := has₁.receiveFrame trivial linked calm
  exact ⟨s₂, (LinkM.runOn_bind_ok sent).trans (LinkM.runOn_bind_ok received), has₂⟩

/-- A stream that can be announced is stored as it is, or refused as a whole. -/
theorem InStep.upload (step : InStep k last c s) {payload : List Byte} (short : payload.length ≤ maxPayload) :
    ∃ r c' s', (upload payload).runOn Timed.answer c s = (r, c', s') ∧
      ((r = .ok () ∧ InStep k (some payload) c' s') ∨ r = .error (.refused .write) ∧ InStep k last c' s') := by
  have small : payload.length < 2 ^ 32 := by
    unfold maxPayload at short
    omega
  obtain ⟨s₁, now, announced, has₁⟩ := step.idle.transact step.linked step.healthy step.settled
    (.write (BitVec.ofNat 32 payload.length)) trivial (by simp [Frame.command])
  have width := (s.network.board.note .write).bytesPerSample_cases
  rcases (s.network.board.note .write).perform_write now small with refused | ⟨sample, granted⟩
  · simp only [Frame.command, refused] at announced has₁
    exact ⟨.error (.refused .write), c, s₁, LinkM.runOn_bind_error announced, .inr ⟨rfl,
      step.board has₁ ⟨rfl, rfl, rfl, rfl, rfl⟩⟩⟩
  · simp only [Frame.command, granted] at announced has₁
    have nonempty : payload ≠ [] := List.ne_nil_of_length_pos (by omega)
    obtain ⟨s₂, streamed, has₂⟩ := stream_runs has₁ step.linked (by omega) nonempty rfl
    refine ⟨.ok (), { c with state := .armed }, s₂, (LinkM.runOn_bind_ok announced).trans streamed,
      .inl ⟨rfl, ?_⟩⟩
    have word : 4 ≤ (s.network.board.note .write).bytesPerSample := by omega
    exact .of_has has₂ (by simp) step.linked ⟨step.healthy.refuses, step.healthy.ignores⟩ rfl fun _ =>
      ⟨rfl, SimulatedBoard.timeColumn_ne_empty word sample⟩

/-- An upload: out of place, too long, refused, or with the board in step with the new stream. -/
theorem InStep.write (step : InStep k last c s) (payload : List Byte) :
    ∃ r c' s', (write payload).runOn Timed.answer c s = (r, c', s') ∧
      ((r = .ok () ∧ InStep k (some payload) c' s') ∨ InStep k last c' s' ∧ ∃ e, r = .error e ∧
        (e.IsMild ∨ maxPayload < payload.length ∧ e = overlong payload)) := by
  obtain ⟨r, c₁, s₁, passed, step₁, mild⟩ := Keeps.require .write [.configured, .armed] step
  cases r with
  | error e =>
    exact ⟨.error e, c₁, s₁, LinkM.runOn_bind_error passed, .inr ⟨step₁, e, rfl, .inl (mild e rfl)⟩⟩
  | ok _ =>
    by_cases long : maxPayload < payload.length
    · refine ⟨.error (overlong payload), c₁, s₁, ?_, .inr ⟨step₁, _, rfl, .inr ⟨long, rfl⟩⟩⟩
      unfold Client.write
      rw [LinkM.runOn_bind_ok passed, if_pos long]
      rfl
    · obtain ⟨r, c₂, s₂, ran, ended⟩ := step₁.upload (Nat.not_lt.mp long)
      refine ⟨r, c₂, s₂, ?_, ended.imp_right ?_⟩
      · unfold Client.write
        rw [LinkM.runOn_bind_ok passed, if_neg long]
        exact ran
      · rintro ⟨refused, step₂⟩
        exact ⟨step₂, _, refused, .inl trivial⟩

/-- What an armed client has is enough for a start. -/
theorem InStep.start (step : InStep k last c s) (armed : c.state = .armed) (cycles : Word) :
    ∃ c' s', (start cycles).runOn Timed.answer c s = (.ok (), c', s') := by
  have here : c.state ∈ [LinkState.armed] := by simp [armed]
  obtain ⟨s', now, ran, has⟩ := step.idle.transact step.linked step.healthy step.settled (.start cycles) trivial
    (by simp [Frame.command])
  have uploaded : (s.network.board.note .start).times ≠ #[] := (step.armed armed).2
  simp only [Frame.command, SimulatedBoard.perform_start uploaded] at ran
  refine ⟨{ c with state := .running }, s', ?_⟩
  unfold Client.start
  rw [LinkM.runOn_bind_ok (step.require here .start)]
  exact LinkM.runOn_bind_ok ran

end Client

/-! ### Sessions -/

/-- Whether a call leaves the client on its connection. -/
def ClientCall.staysConnected : ClientCall → Bool
  | attach _ | close | abort => false
  | _ => true

/-- A client, its network, and what came of every call so far. -/
structure Session where
  client : Client
  network : Timed
  record : List (ClientCall × Except LinkError Unit) := []

namespace Session

/-- The session after one more call. -/
def make (s : Session) (call : ClientCall) : Session :=
  let (result, client, network) := call.perform.runOn Timed.answer s.client s.network
  { client, network, record := s.record ++ [(call, result)] }

/-- The stream of a successful upload. -/
def upload? : ClientCall × Except LinkError Unit → Option (List Byte)
  | (.write payload, .ok _) => some payload
  | _ => none

def lastUpload (s : Session) : Option (List Byte) := (s.record.filterMap upload?).getLast?

/-- A client on a fresh connection to a healthy simulated board. -/
structure IsFresh (s : Session) (k : ConnectionId) : Prop where
  state : s.client.state = .connected
  linked : s.client.connection = some k
  endpoint : s.network.network.endpoints[k]? = some (.simulated {})
  healthy : s.network.network.board.Healthy
  settled : s.network.network.board.pending = 0
  unused : s.record = []

/-- No fault, but for a stream that cannot be announced. -/
def Harmless : ClientCall × Except LinkError Unit → Prop
  | (_, .ok _) => True
  | (call, .error e) => e.IsMild ∨
    ∃ payload, call = .write payload ∧ Client.maxPayload < payload.length ∧ e = Client.overlong payload

/-- Client and board of a session in step. -/
def InStep (s : Session) (k : ConnectionId) : Prop := Client.InStep k s.lastUpload s.client s.network

variable {s : Session} {k : ConnectionId} {call : ClientCall}

theorem IsFresh.inStep (fresh : s.IsFresh k) : s.InStep k := by
  refine ⟨?_, fresh.linked, ⟨rfl, fresh.endpoint⟩, fresh.healthy, fresh.settled, ?_⟩ <;>
    simp [fresh.state]

theorem lastUpload_make (s : Session) (call : ClientCall) {result : Except LinkError Unit} {client : Client}
    {network : Timed} (ran : call.perform.runOn Timed.answer s.client s.network = (result, client, network)) :
    s.make call = ⟨client, network, s.record ++ [(call, result)]⟩ ∧
      (s.make call).lastUpload = (upload? (call, result)).or s.lastUpload := by
  have made : s.make call = ⟨client, network, s.record ++ [(call, result)]⟩ := by
    unfold make
    rw [ran]
  refine ⟨made, ?_⟩
  rw [made, lastUpload, lastUpload, List.filterMap_append, List.getLast?_append, List.filterMap_cons,
    List.filterMap_nil]
  cases upload? (call, result) <;> rfl

/-- One more call. -/
theorem InStep.make (step : s.InStep k) (stays : call.staysConnected) :
    (s.make call).InStep k ∧ ∃ result, (s.make call).record = s.record ++ [(call, result)] ∧
      Harmless (call, result) := by
  by_cases writes : ∃ payload, call = .write payload
  · obtain ⟨payload, rfl⟩ := writes
    obtain ⟨r, c', s', ran, ended⟩ := Client.InStep.write step payload
    obtain ⟨made, last⟩ := s.lastUpload_make (.write payload) ran
    rw [InStep, last, made]
    rcases ended with ⟨rfl, step'⟩ | ⟨step', e, rfl, fault⟩
    · exact ⟨step', _, rfl, trivial⟩
    · exact ⟨step', _, rfl, fault.imp_right fun long => ⟨payload, rfl, long⟩⟩
  · have keeps : Client.Keeps call.perform := by
      cases call with
      | attach _ | close | abort => cases stays
      | setChunkBytes bytes => exact .modify (fun _ => rfl) fun _ => .inl rfl
      | setPolicy policy => exact .modify (fun _ => rfl) fun _ => .inl rfl
      | openBoard => exact .openBoard
      | reset => exact .reset
      | configure config => exact .bind (.configure config) fun _ => .pure
      | write payload => exact absurd ⟨payload, rfl⟩ writes
      | start cycles => exact .start cycles
      | stop => exact .stop
      | poll atChange => exact .bind (.poll atChange) fun _ => .pure
      | summary => exact .bind .summary fun _ => .pure
      | getRegister offset => exact .bind (.getRegister offset) fun _ => .pure
      | setRegister offset value => exact .bind (.setRegister offset value) fun _ => .pure
      | fullStatus => exact .bind .fullStatus fun _ => .pure
    obtain ⟨r, c', s', ran, step', mild⟩ := keeps step
    obtain ⟨made, last⟩ := s.lastUpload_make call ran
    have silent : upload? (call, r) = none := by
      cases call with
      | write payload => exact absurd ⟨payload, rfl⟩ writes
      | _ => rfl
    rw [InStep, last, silent, Option.none_or, made]
    refine ⟨step', r, rfl, ?_⟩
    cases r with
    | ok _ => trivial
    | error e => exact .inl (mild e rfl)

/-- The session after more calls. -/
def after (s : Session) (calls : List ClientCall) : Session := calls.foldl make s

theorem InStep.after {calls : List ClientCall} (step : s.InStep k)
    (harmless : ∀ outcome ∈ s.record, Harmless outcome) (stay : ∀ call ∈ calls, call.staysConnected) :
    (s.after calls).InStep k ∧
      (s.after calls).record.map Prod.fst = s.record.map Prod.fst ++ calls ∧
      ∀ outcome ∈ (s.after calls).record, Harmless outcome := by
  induction calls generalizing s with
  | nil => exact ⟨step, (List.append_nil _).symm, harmless⟩
  | cons call rest ih =>
    rw [List.forall_mem_cons] at stay
    obtain ⟨step', result, recorded, outcome⟩ := step.make stay.1
    have harmless' : ∀ outcome ∈ (s.make call).record, Harmless outcome := by
      rw [recorded, List.forall_mem_append, List.forall_mem_singleton]
      exact ⟨harmless, outcome⟩
    obtain ⟨step'', names, harmless''⟩ := ih step' harmless' stay.2
    refine ⟨step'', names.trans ?_, harmless''⟩
    rw [recorded, List.map_append, List.append_assoc]
    rfl

/-- A client on its connection, with nothing under way: the board expects nothing more, no call has failed but
for a call out of place, a refusal or a stream that is too long, and a board whose client is armed has the last
stream and starts it. -/
structure Settled (s : Session) (k : ConnectionId) : Prop where
  connected : s.client.state ≠ .disconnected
  linked : s.client.connection = some k
  idle : s.network.network.endpoints[k]? = some (.simulated { inbox := [], outbox := [], closed := false })
  complete : s.network.network.board.pending = 0
  harmless : ∀ outcome ∈ s.record, Harmless outcome
  loaded : s.client.state = .armed →
    s.lastUpload = some s.network.network.board.data ∧ 0 < s.network.network.board.times.size
  starts : s.client.state = .armed → ∀ cycles,
    (s.make (.start cycles)).record = s.record ++ [(.start cycles, .ok ())]

theorem InStep.settled (step : s.InStep k) (harmless : ∀ outcome ∈ s.record, Harmless outcome) :
    s.Settled k where
  connected := step.connected
  linked := step.linked
  idle := step.idle.link
  complete := Client.InStep.settled step
  harmless := harmless
  loaded armed := ⟨(step.armed armed).1, Array.size_pos_iff.mpr (step.armed armed).2⟩
  starts armed cycles := by
    obtain ⟨c', s', ran⟩ := Client.InStep.start step armed cycles
    rw [(s.lastUpload_make (.start cycles) ran).1]

/-- A session on a fresh connection is settled after any calls that stay on it. -/
theorem settled_after_calls {start : Session} (fresh : start.IsFresh k) {calls : List ClientCall}
    (stay : ∀ call ∈ calls, call.staysConnected) :
    (start.after calls).Settled k ∧ (start.after calls).record.map Prod.fst = calls := by
  obtain ⟨step, names, harmless⟩ := fresh.inStep.after (by simp [fresh.unused]) stay
  rw [fresh.unused] at names
  exact ⟨step.settled harmless, names⟩

/-- A client on its first connection to a board. -/
def sample : Session where
  client := { name := "main", connection := some 0, state := .connected }
  network := ⟨{ board := { name := "main" }, endpoints := #[.simulated {}] }, fun later => 1000 * later⟩

/-- An upload that is refused, and one in pieces of three bytes. -/
def sampleCalls : List ClientCall :=
  [.openBoard, .configure { clockRate := 100, scanRate := 10 }, .write [1, 2, 3], .setChunkBytes 3,
    .write [0, 0, 0, 0, 5, 0, 0, 0]]

theorem sample_settles : (sample.after sampleCalls).client.state = .armed ∧
    (sample.after sampleCalls).Settled 0 ∧ (sample.after sampleCalls).record.map Prod.fst = sampleCalls := by
  have fresh : sample.IsFresh 0 := ⟨rfl, rfl, rfl, ⟨rfl, rfl⟩, rfl, rfl⟩
  have armed : (sample.after sampleCalls).client.state = .armed := by decide +kernel
  exact ⟨armed, settled_after_calls fresh (by decide)⟩

end Session
end Sequencer
