import Sequencer.Link.Client
import Sequencer.Proofs.Traces

/-!
What an error costs a client, whatever comes over its connection.

A run of an operation ends well, or with an error that leaves the client as it was, or with a fatal error and
the connection shut down. `Does` says this of a program together with what its success does to the client; it
passes from the parts of a program to the whole as long as only the last part changes the client.
-/
namespace Sequencer

/-- An operation of a client with its arguments, or a setting. -/
inductive ClientCall where
  | attach (connection : ConnectionId)
  | setChunkBytes (bytes : UInt64)
  | setPolicy (policy : ErrorPolicy)
  | openBoard
  | reset
  | configure (config : ConfigFrame)
  | write (payload : List Byte)
  | start (cycles : Word)
  | stop
  | poll (atChange : Bool)
  | summary
  | getRegister (offset : Word)
  | setRegister (offset value : Word)
  | fullStatus
  | close
  | abort
  deriving DecidableEq

namespace ClientCall

/-- The operation without its result. -/
def perform : ClientCall → LinkM Unit
  | attach connection => Client.attach connection
  | setChunkBytes bytes => modify fun c => c.setChunkBytes bytes
  | setPolicy policy => modify fun c => { c with policy }
  | openBoard => Client.openBoard
  | reset => Client.reset
  | configure config => do let _ ← Client.configure config
  | write payload => Client.write payload
  | start cycles => Client.start cycles
  | stop => Client.stop
  | poll atChange => do let _ ← Client.poll atChange
  | summary => do let _ ← Client.summary
  | getRegister offset => do let _ ← Client.getRegister offset
  | setRegister offset value => do let _ ← Client.setRegister offset value
  | fullStatus => do let _ ← Client.fullStatus
  | close => Client.close
  | abort => Client.abort

end ClientCall

namespace Client

/-- The calls of a client's program on its connections, with their answers. -/
abbrev Calls := Trace linkInterface

/-- A client without a connection. -/
structure Disconnected (c : Client) : Prop where
  state : c.state = .disconnected
  connection : c.connection = none
  applied : c.applied = none

/-- The connection was shut down, and with that everything ended. -/
structure Shut (c : Client) (calls : Calls) (c' : Client) : Prop where
  disconnected : c'.Disconnected
  told : ∃ connection earlier, c.connection = some connection ∧
    calls = earlier ++ [⟨.shutdown connection, ()⟩]

/-- A client as its operations leave it. -/
structure Sound (c : Client) : Prop where
  connected : c.state = .disconnected ↔ c.connection = none
  dropped : c.state = .disconnected → c.applied = none
  applied : c.state ∈ [.configured, .armed, .running] → c.applied.isSome

/-- What a client can become, whatever its connections answer. -/
inductive Reached : Client → Prop where
  | unconnected (name : String) (operationMs : Nat) : Reached { name, operationMs }
  | connected (name : String) (operationMs : Nat) (connection : ConnectionId) :
    Reached { name, operationMs, connection := some connection, state := .connected }
  | call {c c' : Client} {call : ClientCall} {calls : Calls} {r : Except LinkError Unit} (earlier : Reached c)
    (runs : Task.Runs call.perform c calls r c') : Reached c'

variable {α β : Type} {c c' : Client} {calls : Calls} {R R' : Client → Prop} {P : Prop} {p : LinkM α}
  {f : α → LinkM β} {allowed : List LinkState} {request : Frame} {expected command : Command}

/-- A success leaves a certain client; a fatal error costs the connection, and another error nothing. -/
def Does (p : LinkM α) (c : Client) (R : Client → Prop) : Prop :=
  ∀ calls r c', Task.Runs p c calls r c' → match r with
    | .ok _ => R c'
    | .error e => if e.isFatal then Shut c calls c' else c' = c

/-- A program that changes nothing, and whose success tells something. -/
abbrev Tells (p : LinkM α) (c : Client) (P : Prop) : Prop := Does p c fun c' => c' = c ∧ P

namespace Does

theorem pure {a : α} (holds : R c) : Does (Pure.pure a : LinkM α) c R := by
  intro calls r c' runs
  obtain ⟨_, rfl, rfl⟩ := Task.runs_pure.mp runs
  exact holds

theorem throw {e : LinkError} (calm : e.isFatal = false) : Does (MonadExcept.throw e : LinkM α) c R := by
  intro calls r c' runs
  obtain ⟨_, rfl, rfl⟩ := Task.runs_throw.mp runs
  simp [calm]

theorem get {f : Client → LinkM β} (next : Does (f c) c R) : Does (MonadState.get >>= f) c R := next

theorem modify_pure {g : Client → Client} {a : α} (holds : R (g c)) :
    Does (modify g >>= fun _ => Pure.pure a) c R := by
  intro calls r c' runs
  obtain ⟨_, rfl, rfl⟩ := Task.runs_pure.mp ((Task.runs_modify (f := fun _ => Pure.pure a)).mp runs)
  exact holds

theorem modify {g : Client → Client} (holds : R (g c)) : Does (modify g : LinkM PUnit) c R := by
  intro calls r c' runs
  obtain ⟨_, rfl, rfl⟩ := Task.runs_pure.mp (Task.runs_modify (f := Pure.pure).mp runs)
  exact holds

/-- What follows neither calls nor fails nor changes anything. -/
theorem result (does : Does p c R)
    (quiet : ∀ a mid calls r c', Task.Runs (f a) mid calls r c' → calls = [] ∧ (∃ b, r = .ok b) ∧ c' = mid) :
    Does (p >>= f) c R := by
  intro calls r c' runs
  rcases Task.runs_bind.mp runs with ⟨before, after, a, mid, rfl, ran, goesOn⟩ | ⟨e, rfl, ran⟩
  · obtain ⟨rfl, ⟨b, rfl⟩, rfl⟩ := quiet a mid after r c' goesOn
    exact does before (.ok a) c' ran
  · exact does calls (.error e) c' ran

/-- A program without its result. -/
theorem unit (does : Does p c R) : Does (p >>= fun _ => Pure.pure ()) c R := by
  refine does.result fun _ _ _ _ _ runs => ?_
  obtain ⟨uncalled, ended, same⟩ := Task.runs_pure.mp runs
  exact ⟨uncalled, ⟨_, ended⟩, same⟩

theorem bind (first : Tells p c P) (next : P → ∀ a, Does (f a) c R) : Does (p >>= f) c R := by
  intro calls r c' runs
  rcases Task.runs_bind.mp runs with ⟨before, after, a, mid, rfl, ran, goesOn⟩ | ⟨e, rfl, ran⟩
  · obtain ⟨rfl, holds⟩ := first before (.ok a) mid ran
    have here := next holds a after r c' goesOn
    cases r with
    | ok b => exact here
    | error e =>
      dsimp only at here ⊢
      split
      · rename_i fatal
        rw [if_pos fatal] at here
        obtain ⟨connection, earlier, linked, rfl⟩ := here.told
        exact ⟨here.disconnected, connection, before ++ earlier, linked, (List.append_assoc _ _ _).symm⟩
      · rename_i calm
        rw [if_neg calm] at here
        exact here
  · exact first calls (.error e) c' ran

end Does

/-! ### Requests -/

theorem require_tells (operation : Command) :
    Tells (require operation allowed) c (c.state ≠ .disconnected ∧ c.state ∈ allowed) := by
  unfold require
  refine .get ?_
  by_cases lost : c.state = .disconnected
  · rw [if_pos lost]
    exact .throw rfl
  · rw [if_neg lost]
    by_cases here : c.state ∈ allowed
    · rw [if_neg (not_not_intro here)]
      exact .pure ⟨rfl, lost, here⟩
    · rw [if_pos here]
      exact .throw rfl

/-- The call that shuts a connection down. -/
def shutdownOf (c : Client) : Calls :=
  (c.connection.map fun connection => (⟨.shutdown connection, ()⟩ : Move linkInterface)).toList

theorem dropConnection_runs {r : Except LinkError Unit} (runs : Task.Runs dropConnection c calls r c') :
    r = .ok () ∧ calls = c.shutdownOf ∧
      c' = { c with connection := none, state := .disconnected, applied := none } := by
  unfold dropConnection at runs
  replace runs := Task.runs_get.mp runs
  unfold shutdownOf
  cases linked : c.connection with
  | none =>
    rw [linked] at runs
    obtain ⟨rfl, rfl, rfl⟩ := Task.runs_pure.mp (Task.runs_modify (f := pure).mp runs)
    exact ⟨rfl, rfl, rfl⟩
  | some connection =>
    rw [linked] at runs
    rcases Task.runs_bind.mp runs with ⟨before, after, _, mid, rfl, ran, goesOn⟩ | ⟨e, rfl, ran⟩
    · obtain ⟨answer, rfl, _, rfl⟩ := Task.runs_ask.mp ran
      obtain ⟨rfl, rfl, rfl⟩ := Task.runs_pure.mp (Task.runs_modify (f := pure).mp goesOn)
      exact ⟨rfl, rfl, rfl⟩
    · obtain ⟨_, _, impossible, _⟩ := Task.runs_ask.mp ran
      cases impossible

theorem guarding_tells {connection : ConnectionId} (linked : c.connection = some connection)
    (result : Except LinkError α) : Tells (guarding result) c True := by
  cases result with
  | ok a => exact .pure ⟨rfl, trivial⟩
  | error e =>
    unfold guarding
    dsimp only
    intro calls r c' runs
    by_cases fatal : e.isFatal
    · rw [if_pos fatal] at runs
      rcases Task.runs_bind.mp runs with ⟨before, after, _, mid, rfl, ran, goesOn⟩ | ⟨e', _, ran⟩
      · obtain ⟨_, rfl, rfl⟩ := dropConnection_runs ran
        obtain ⟨rfl, rfl, rfl⟩ := Task.runs_throw.mp goesOn
        rw [List.append_nil, shutdownOf, linked]
        dsimp only
        rw [if_pos fatal]
        exact ⟨⟨rfl, rfl, rfl⟩, connection, [], linked, rfl⟩
      · cases (dropConnection_runs ran).1
    · rw [if_neg fatal] at runs
      obtain ⟨_, rfl, rfl⟩ := Task.runs_throw.mp runs
      dsimp only
      rw [if_neg fatal]

theorem ask_tells (call : LinkCall) : Tells (ask call) c True := by
  intro calls r c' runs
  obtain ⟨_, _, rfl, rfl⟩ := Task.runs_ask.mp runs
  exact ⟨rfl, trivial⟩

theorem lift_tells (p : Program linkInterface α) : Tells (ExceptT.lift (StateT.lift p)) c True := by
  intro calls r c' runs
  obtain ⟨_, rfl, rfl, _⟩ := Task.runs_lift.mp runs
  exact ⟨rfl, trivial⟩

theorem sendBytes_tells (bytes : List Byte) : Tells (sendBytes bytes) c True := by
  unfold sendBytes
  refine .get ?_
  cases linked : c.connection with
  | none => exact .throw rfl
  | some connection => exact .bind (ask_tells _) fun _ answer => guarding_tells linked answer

theorem receive_tells : Tells (receive command expected) c True := by
  unfold receive
  refine .get ?_
  cases linked : c.connection with
  | none => exact .throw rfl
  | some connection => exact .bind (lift_tells _) fun _ answer => guarding_tells linked _

theorem transact_tells : Tells (transact request expected) c True := by
  exact .bind (sendBytes_tells _) fun _ _ => receive_tells

theorem sendAll_tells (pieces : List (List Byte)) : Tells (pieces.forM sendBytes) c True := by
  induction pieces with
  | nil => exact .pure ⟨rfl, trivial⟩
  | cons piece rest ih => exact .bind (sendBytes_tells piece) fun _ _ => ih

/-- An operation that is one request, in some states only, and then changes the client. -/
theorem asking (operation : Command) {next : Frame → LinkM α}
    (tail : c.state ≠ .disconnected → c.state ∈ allowed → ∀ f, Does (next f) c R) :
    Does (require operation allowed >>= fun _ => transact request expected >>= next) c R :=
  .bind (require_tells operation) fun here _ => .bind transact_tells fun _ f => tail here.1 here.2 f

/-! ### Operations -/

namespace Sound

/-- A client that stays connected. -/
theorem stays (sound : c.Sound) (here : c.state ≠ .disconnected) (there : c'.state ≠ .disconnected)
    (same : c'.connection = c.connection)
    (applied : c'.state ∈ [.configured, .armed, .running] → c'.applied.isSome) : c'.Sound :=
  ⟨iff_of_false there fun lost => here (sound.connected.mpr (same ▸ lost)), fun lost => absurd lost there,
    applied⟩

theorem setState {state : LinkState} (sound : c.Sound) (here : c.state ≠ .disconnected)
    (there : state ≠ .disconnected) (kept : state ∈ [.configured, .armed, .running] → c.applied.isSome) :
    { c with state }.Sound :=
  sound.stays here there rfl kept

theorem linked (sound : c.Sound) (here : c.state ≠ .disconnected) :
    ∃ connection, c.connection = some connection :=
  Option.ne_none_iff_exists'.mp fun lost => here (sound.connected.mpr lost)

theorem disconnected (sound : c.Sound) (gone : c.state = .disconnected) : c.Disconnected :=
  ⟨gone, sound.connected.mp gone, sound.dropped gone⟩

theorem openBoard (sound : c.Sound) : Does openBoard c Sound := by
  refine asking _ fun here _ _ => .get ?_
  split
  · exact .modify (sound.setState here (by decide) (by simp))
  · exact .pure sound

theorem reset (sound : c.Sound) : Does reset c Sound :=
  asking _ fun here _ _ => .modify (sound.stays here nofun rfl (by simp))

theorem configure (sound : c.Sound) (config : ConfigFrame) : Does (configure config) c Sound :=
  asking _ fun here _ _ => .modify_pure (sound.stays here nofun rfl fun _ => rfl)

theorem write (sound : c.Sound) {payload : List Byte}
    (short : c.state ∈ [.configured, .armed] → payload.length ≤ maxPayload) : Does (write payload) c Sound := by
  unfold Client.write
  refine .bind (require_tells _) fun here _ => ?_
  rw [if_neg (Nat.not_lt.mpr (short here.2))]
  refine .bind transact_tells fun _ _ => .get ?_
  refine .bind (sendAll_tells _) fun _ _ => .bind receive_tells fun _ _ => ?_
  exact .modify (sound.setState here.1 (by decide) fun _ =>
    sound.applied (List.mem_append_left [LinkState.running] here.2))

theorem start (sound : c.Sound) (cycles : Word) : Does (start cycles) c Sound :=
  asking _ fun here armed _ => .modify (sound.setState here (by decide) fun _ => sound.applied (by simp_all))

theorem stop (sound : c.Sound) : Does stop c Sound := by
  refine asking _ fun here _ _ => .get ?_
  split
  · exact .modify (sound.setState here (by decide) (by simp))
  · exact .pure sound

theorem poll (sound : c.Sound) (atChange : Bool) : Does (poll atChange) c Sound := by
  refine .bind (require_tells _) fun _ _ => ?_
  dsimp only
  split <;>
    exact .bind transact_tells fun _ _ => .modify_pure ⟨sound.connected, sound.dropped, sound.applied⟩

theorem summary (sound : c.Sound) : Does summary c Sound := by
  unfold Client.summary
  refine (sound.poll false).result ?_
  intro status mid calls r c' runs
  replace runs : Task.Runs (pure (StatusSummary.of status.status mid.policy)) mid calls r c' := runs
  obtain ⟨uncalled, ended, same⟩ := Task.runs_pure.mp runs
  exact ⟨uncalled, ⟨_, ended⟩, same⟩

theorem getRegister (sound : c.Sound) (offset : Word) : Does (getRegister offset) c Sound := by
  refine asking _ fun _ _ f => ?_
  split <;> exact .pure sound

theorem setRegister (sound : c.Sound) (offset value : Word) : Does (setRegister offset value) c Sound := by
  refine asking _ fun _ _ f => ?_
  split <;> exact .pure sound

theorem fullStatus (sound : c.Sound) : Does fullStatus c Sound := by
  refine asking _ fun _ _ f => ?_
  split <;> exact .pure sound

end Sound

/-! ### The end of a connection -/

theorem Disconnected.sound (gone : c.Disconnected) : c.Sound :=
  ⟨iff_of_true gone.state gone.connection, fun _ => gone.applied, by simp [gone.state]⟩

theorem Shut.append {earlier : Calls} (shut : Shut c calls c') : Shut c (earlier ++ calls) c' := by
  obtain ⟨connection, before, linked, rfl⟩ := shut.told
  exact ⟨shut.disconnected, connection, earlier ++ before, linked, (List.append_assoc _ _ _).symm⟩

theorem dropConnection_shut {connection : ConnectionId} {r : Except LinkError Unit}
    (linked : c.connection = some connection) (runs : Task.Runs dropConnection c calls r c') :
    r = .ok () ∧ Shut c calls c' := by
  obtain ⟨rfl, rfl, rfl⟩ := dropConnection_runs runs
  rw [shutdownOf, linked]
  exact ⟨rfl, ⟨rfl, rfl, rfl⟩, connection, [], linked, rfl⟩

theorem Disconnected.dropConnection {r : Except LinkError Unit} (gone : c.Disconnected)
    (runs : Task.Runs dropConnection c calls r c') : r = .ok () ∧ calls = [] ∧ c' = c := by
  obtain ⟨rfl, rfl, rfl⟩ := dropConnection_runs runs
  refine ⟨rfl, by rw [shutdownOf, gone.connection]; rfl, ?_⟩
  rw [← gone.connection, ← gone.state, ← gone.applied]

/-- After a request that went through the connection is still there, and is shut down. -/
theorem transact_drop_shut {connection : ConnectionId} {r : Except LinkError Unit}
    (linked : c.connection = some connection)
    (runs : Task.Runs (transact request expected >>= fun _ => dropConnection) c calls r c') :
    (r = .ok () ∧ Shut c calls c') ∨ ∃ e, r = .error e ∧ if e.isFatal then Shut c calls c' else c' = c := by
  rcases Task.runs_bind.mp runs with ⟨before, after, f, mid, rfl, ran, goesOn⟩ | ⟨e, rfl, ran⟩
  · obtain ⟨rfl, _⟩ := transact_tells before (.ok f) mid ran
    obtain ⟨ended, shut⟩ := dropConnection_shut linked goesOn
    exact .inl ⟨ended, shut.append⟩
  · exact .inr ⟨e, rfl, transact_tells calls (.error e) c' ran⟩

theorem close_shut {connection : ConnectionId} {r : Except LinkError Unit} (here : c.state ≠ .disconnected)
    (linked : c.connection = some connection) (runs : Task.Runs close c calls r c') : Shut c calls c' := by
  unfold close at runs
  replace runs := Task.runs_get.mp runs
  rw [if_neg (by simp [isConnected, here])] at runs
  rcases Task.runs_tryCatch.mp runs with ⟨_, rfl, ran⟩ | ⟨before, after, e, mid, rfl, ran, goesOn⟩
  · rcases transact_drop_shut linked ran with ⟨_, shut⟩ | ⟨_, impossible, _⟩
    · exact shut
    · cases impossible
  · rcases transact_drop_shut linked ran with ⟨impossible, _⟩ | ⟨_, same, lost⟩
    · cases impossible
    · cases same
      rcases Task.runs_bind.mp goesOn with ⟨first, second, _, last, rfl, dropping, throwing⟩ | ⟨_, _, dropping⟩
      · obtain ⟨rfl, rfl, rfl⟩ := Task.runs_throw.mp throwing
        rw [List.append_nil]
        by_cases fatal : e.isFatal
        · rw [if_pos fatal] at lost
          obtain ⟨_, rfl, rfl⟩ := lost.disconnected.dropConnection dropping
          rwa [List.append_nil]
        · rw [if_neg fatal] at lost
          subst lost
          exact (dropConnection_shut linked dropping).2.append
      · cases (dropConnection_runs dropping).1

theorem Disconnected.close {r : Except LinkError Unit} (gone : c.Disconnected)
    (runs : Task.Runs close c calls r c') : r = .ok () ∧ calls = [] ∧ c' = c := by
  unfold Client.close at runs
  replace runs := Task.runs_get.mp runs
  rw [if_pos (by simp [isConnected, gone.state])] at runs
  obtain ⟨uncalled, ended, same⟩ := Task.runs_pure.mp runs
  exact ⟨ended, uncalled, same⟩

theorem runs_ignoringErrors {p : LinkM Unit} {r : Except LinkError Unit}
    (runs : Task.Runs (ignoringErrors p) c calls r c') :
    r = .ok () ∧ ∃ result, Task.Runs p c calls result c' := by
  rcases Task.runs_tryCatch.mp runs with ⟨_, rfl, ran⟩ | ⟨before, after, e, mid, rfl, ran, ended⟩
  · exact ⟨rfl, _, ran⟩
  · obtain ⟨rfl, rfl, rfl⟩ := Task.runs_pure.mp ended
    rw [List.append_nil]
    exact ⟨rfl, _, ran⟩

theorem stop_stays : Does stop c fun c' => c'.connection = c.connection ∧ c'.state ≠ .disconnected := by
  refine asking _ fun here _ _ => .get ?_
  split
  · exact .modify ⟨rfl, nofun⟩
  · exact .pure ⟨rfl, here⟩

theorem abort_shut {connection : ConnectionId} {r : Except LinkError Unit} (here : c.state ≠ .disconnected)
    (linked : c.connection = some connection) (runs : Task.Runs abort c calls r c') :
    r = .ok () ∧ Shut c calls c' := by
  unfold abort at runs
  replace runs := Task.runs_get.mp runs
  rw [if_neg (by simp [isConnected, here])] at runs
  rcases Task.runs_bind.mp runs with ⟨before, after, _, mid, rfl, stopping, closing⟩ | ⟨_, _, stopping⟩
  · obtain ⟨_, result, stopped⟩ := runs_ignoringErrors stopping
    obtain ⟨ended, _, closed⟩ := runs_ignoringErrors closing
    refine ⟨ended, ?_⟩
    -- the board may have been lost with the first request
    have left : (mid.connection = some connection ∧ mid.state ≠ .disconnected) ∨ Shut c before mid := by
      have stops := stop_stays before result mid stopped
      cases result with
      | ok _ => exact .inl ⟨stops.1.trans linked, stops.2⟩
      | error e =>
        dsimp only at stops
        split at stops
        · exact .inr stops
        · exact .inl (stops ▸ ⟨linked, here⟩)
    rcases left with ⟨kept, there⟩ | shut
    · obtain ⟨gone, other, earlier, same, rfl⟩ := close_shut there kept closed
      obtain rfl := Option.some.inj (kept.symm.trans same)
      exact Shut.append ⟨gone, _, earlier, linked, rfl⟩
    · obtain ⟨_, rfl, rfl⟩ := shut.disconnected.close closed
      rwa [List.append_nil]
  · cases (runs_ignoringErrors stopping).1

theorem Disconnected.abort {r : Except LinkError Unit} (gone : c.Disconnected)
    (runs : Task.Runs abort c calls r c') : r = .ok () ∧ calls = [] ∧ c' = c := by
  unfold Client.abort at runs
  replace runs := Task.runs_get.mp runs
  rw [if_pos (by simp [isConnected, gone.state])] at runs
  obtain ⟨uncalled, ended, same⟩ := Task.runs_pure.mp runs
  exact ⟨ended, uncalled, same⟩

theorem attach_runs {connection : ConnectionId} {r : Except LinkError Unit}
    (runs : Task.Runs (attach connection) c calls r c') : r = .ok () ∧ c'.Sound := by
  unfold attach at runs
  rcases Task.runs_bind.mp runs with ⟨before, after, _, mid, rfl, dropping, attaching⟩ | ⟨_, _, dropping⟩
  · obtain ⟨_, _, rfl⟩ := dropConnection_runs dropping
    obtain ⟨_, rfl, rfl⟩ := Task.runs_pure.mp (Task.runs_modify (f := pure).mp attaching)
    exact ⟨rfl, iff_of_false nofun nofun, nofun, by simp⟩
  · cases (dropConnection_runs dropping).1

/-! ### Streams that are too long -/

/-- What `write` returns for a stream whose length cannot be announced. -/
def overlong (payload : List Byte) : LinkError := .unexpectedFrameSize .write [maxPayload] payload.length

theorem require_runs {operation : Command} {r : Except LinkError Unit} (here : c.state ≠ .disconnected)
    (listed : c.state ∈ allowed) :
    Task.Runs (require operation allowed) c calls r c' ↔ calls = [] ∧ r = .ok () ∧ c' = c := by
  unfold require
  rw [Task.runs_get, if_neg here, if_neg (not_not_intro listed)]
  exact Task.runs_pure

/-- Such a stream is refused before anything is sent, and without regard to what the error costs. -/
theorem write_overlong {payload : List Byte} {r : Except LinkError Unit}
    (ready : c.state ∈ [.configured, .armed]) (long : maxPayload < payload.length) :
    Task.Runs (write payload) c calls r c' ↔ calls = [] ∧ r = .error (overlong payload) ∧ c' = c := by
  have here : c.state ≠ .disconnected := by
    intro lost
    simp [lost] at ready
  unfold write
  rw [Task.runs_bind]
  constructor
  · rintro (⟨before, after, _, mid, rfl, ran, runs⟩ | ⟨e, rfl, ran⟩)
    · obtain ⟨rfl, _, rfl⟩ := (require_runs here ready).mp ran
      rw [if_pos long] at runs
      exact Task.runs_throw.mp runs
    · cases ((require_runs here ready).mp ran).2.1
  · rintro ⟨rfl, rfl, rfl⟩
    refine .inl ⟨[], [], (), c', rfl, (require_runs here ready).mpr ⟨rfl, rfl, rfl⟩, ?_⟩
    rw [if_pos long]
    exact Task.runs_throw.mpr ⟨rfl, rfl, rfl⟩

end Client

open Client

/-- A stream that is longer than can be announced, for a client that could send it. -/
def ClientCall.Overlong (call : ClientCall) (c : Client) : Prop :=
  ∃ payload, call = .write payload ∧ maxPayload < payload.length ∧ c.state ∈ [.configured, .armed]

theorem ClientCall.does {call : ClientCall} {c : Client} (sound : c.Sound) (open_ : call ≠ .close)
    (short : ¬call.Overlong c) : Does call.perform c Sound := by
  cases call with
  | attach connection =>
    intro calls r c' runs
    obtain ⟨rfl, attached⟩ := attach_runs runs
    exact attached
  | setChunkBytes bytes => exact .modify ⟨sound.connected, sound.dropped, sound.applied⟩
  | setPolicy policy => exact .modify ⟨sound.connected, sound.dropped, sound.applied⟩
  | openBoard => exact sound.openBoard
  | reset => exact sound.reset
  | configure config => exact (sound.configure config).unit
  | write payload =>
    exact sound.write fun ready => Nat.not_lt.mp fun long => short ⟨payload, rfl, long, ready⟩
  | start cycles => exact sound.start cycles
  | stop => exact sound.stop
  | poll atChange => exact (sound.poll atChange).unit
  | summary => exact sound.summary.unit
  | getRegister offset => exact (sound.getRegister offset).unit
  | setRegister offset value => exact (sound.setRegister offset value).unit
  | fullStatus => exact sound.fullStatus.unit
  | close => exact absurd rfl open_
  | abort =>
    intro calls r c' runs
    by_cases here : c.state = .disconnected
    · obtain ⟨rfl, _, rfl⟩ := (sound.disconnected here).abort runs
      exact sound
    · obtain ⟨connection, linked⟩ := sound.linked here
      obtain ⟨rfl, shut⟩ := abort_shut here linked runs
      exact shut.disconnected.sound

namespace Client
variable {c c' : Client} {calls : Calls} {call : ClientCall} {r : Except LinkError Unit}

/-- How a call ends, for a client as operations leave it. -/
structure Policy (call : ClientCall) (c : Client) (calls : Calls) (r : Except LinkError Unit) (c' : Client) :
    Prop where
  fatal : ∀ e, r = .error e → e.isFatal → ¬call.Overlong c → Shut c calls c'
  calm : ∀ e, r = .error e → e.isFatal = false → call ≠ .close → c' = c
  closing : call = .close ∨ call = .abort → c'.Disconnected
  silent : call = .close ∨ call = .abort → c.state = .disconnected → calls = []
  overlong : ∀ payload, call = .write payload → call.Overlong c →
    r = .error (overlong payload) ∧ calls = [] ∧ c' = c

/-- The policy of a call that ends the connection. -/
theorem Policy.of_closing (closes : call = .close ∨ call = .abort) (gone : c'.Disconnected)
    (silent : c.state = .disconnected → calls = []) (shut : ∀ e, r = .error e → Shut c calls c')
    (quiet : call = .abort → r = .ok ()) : Policy call c calls r c' where
  fatal e failed _ _ := shut e failed
  calm e failed _ other := by
    have ended := quiet (closes.resolve_left other)
    rw [ended] at failed
    cases failed
  closing _ := gone
  silent _ lost := silent lost
  overlong payload same _ := by
    subst same
    rcases closes with closes | closes <;> cases closes

theorem Sound.close_policy (sound : c.Sound) (runs : Task.Runs ClientCall.close.perform c calls r c') :
    c'.Sound ∧ Policy .close c calls r c' := by
  by_cases here : c.state = .disconnected
  · obtain ⟨rfl, rfl, rfl⟩ := (sound.disconnected here).close runs
    exact ⟨sound, .of_closing (.inl rfl) (sound.disconnected here) (fun _ => rfl) (by rintro _ ⟨⟩) (by rintro ⟨⟩)⟩
  · obtain ⟨connection, linked⟩ := sound.linked here
    have shut := close_shut here linked runs
    exact ⟨shut.disconnected.sound, .of_closing (.inl rfl) shut.disconnected (fun lost => absurd lost here)
      (fun _ _ => shut) (by rintro ⟨⟩)⟩

theorem Sound.abort_policy (sound : c.Sound) (runs : Task.Runs ClientCall.abort.perform c calls r c') :
    c'.Sound ∧ Policy .abort c calls r c' := by
  by_cases here : c.state = .disconnected
  · obtain ⟨rfl, rfl, rfl⟩ := (sound.disconnected here).abort runs
    exact ⟨sound, .of_closing (.inr rfl) (sound.disconnected here) (fun _ => rfl) (by rintro _ ⟨⟩) fun _ => rfl⟩
  · obtain ⟨connection, linked⟩ := sound.linked here
    obtain ⟨rfl, shut⟩ := abort_shut here linked runs
    exact ⟨shut.disconnected.sound, .of_closing (.inr rfl) shut.disconnected (fun lost => absurd lost here)
      (fun _ _ => shut) fun _ => rfl⟩

theorem Sound.policy (sound : c.Sound) (runs : Task.Runs call.perform c calls r c') :
    c'.Sound ∧ Policy call c calls r c' := by
  by_cases closing : call = .close ∨ call = .abort
  · rcases closing with rfl | rfl
    · exact sound.close_policy runs
    · exact sound.abort_policy runs
  by_cases long : call.Overlong c
  · obtain ⟨payload, rfl, tooLong, ready⟩ := long
    obtain ⟨rfl, rfl, rfl⟩ := (write_overlong ready tooLong).mp runs
    refine ⟨sound, fun _ _ _ short => absurd ⟨payload, rfl, tooLong, ready⟩ short, fun _ _ _ _ => rfl,
      fun other => absurd other closing, fun other => absurd other closing, ?_⟩
    intro other same _
    cases same
    exact ⟨rfl, rfl, rfl⟩
  · have ended := ClientCall.does sound (fun same => closing (.inl same)) long calls r c' runs
    have closes : ∀ {P : Prop}, call = .close ∨ call = .abort → P := fun other => absurd other closing
    cases r with
    | ok _ =>
      refine ⟨ended, ?_, ?_, closes, closes, fun _ _ other => absurd other long⟩ <;>
        rintro _ ⟨⟩
    | error e =>
      by_cases fatal : e.isFatal
      · replace ended : Shut c calls c' := by simpa [fatal] using ended
        refine ⟨ended.disconnected.sound, fun _ _ _ _ => ended, ?_, closes, closes,
          fun _ _ other => absurd other long⟩
        intro _ same calm
        cases same
        exact absurd fatal (by simp [calm])
      · replace ended : c' = c := by simpa [fatal] using ended
        subst ended
        refine ⟨sound, ?_, fun _ _ _ _ => rfl, closes, closes, fun _ _ other => absurd other long⟩
        intro _ same lost
        cases same
        exact absurd lost fatal

theorem Reached.sound (reached : Reached c) : c.Sound := by
  induction reached with
  | unconnected name operationMs => exact ⟨iff_of_true rfl rfl, fun _ => rfl, by simp⟩
  | connected name operationMs connection => exact ⟨iff_of_false nofun nofun, nofun, by simp⟩
  | call earlier runs ih => exact (ih.policy runs).1

/-- A client is disconnected if it has no connection, and every call keeps to the policy, whatever is answered.
The one exception is the stream that is too long: its error is fatal, but the connection stays. -/
theorem reached_keeps_policy (reached : Reached c) (runs : Task.Runs call.perform c calls r c') :
    c.Sound ∧ c'.Sound ∧ Policy call c calls r c' :=
  ⟨reached.sound, reached.sound.policy runs⟩

/-- A connected client. -/
def sample : Client := { name := "main", connection := some 0, state := .connected }

/-- The client after its board was opened and configured. -/
def configuredSample : Client := { sample with state := .configured, applied := some {} }

theorem opening_runs : Task.Runs ClientCall.openBoard.perform sample
    [⟨.send 0 Frame.openBoard.encode, Except.ok ()⟩, ⟨.receive 0 2, Except.ok [0x02, 0x04]⟩,
      ⟨.receive 0 0, Except.ok []⟩] (.ok ()) { sample with state := .opened } :=
  .move _ (.move _ (.move _ (.stay _)))

theorem configuring_runs : Task.Runs (ClientCall.configure {}).perform { sample with state := .opened }
    [⟨.send 0 (Frame.config {}).encode, Except.ok ()⟩, ⟨.receive 0 2, Except.ok [0x32, 0x18]⟩,
      ⟨.receive 0 48, Except.ok (List.replicate 48 0)⟩] (.ok ()) configuredSample :=
  .move _ (.move _ (.move _ (.stay _)))

theorem configuredSample_reached : Reached configuredSample :=
  .call (.call (.connected "main" 5000 0) opening_runs) configuring_runs

/-- The peer is gone when the configured client stops its board. -/
theorem lost_sample_is_shut : ∃ c',
    Task.Runs ClientCall.stop.perform configuredSample
      [⟨.send 0 Frame.stop.encode, Except.error .peerClosed⟩, ⟨.shutdown 0, ()⟩] (.error .peerClosed) c' ∧
    configuredSample.Sound ∧ Shut configuredSample
      [⟨.send 0 Frame.stop.encode, Except.error .peerClosed⟩, ⟨.shutdown 0, ()⟩] c' := by
  have runs : Task.Runs ClientCall.stop.perform configuredSample
      [⟨.send 0 Frame.stop.encode, Except.error .peerClosed⟩, ⟨.shutdown 0, ()⟩] (.error .peerClosed)
      { configuredSample with connection := none, state := .disconnected, applied := none } :=
    .move _ (.move _ (.stay _))
  obtain ⟨sound, _, policy⟩ := reached_keeps_policy configuredSample_reached runs
  refine ⟨_, runs, sound, policy.fatal _ rfl rfl ?_⟩
  rintro ⟨_, other, _⟩
  cases other

/-- A stream of four gibibytes: a fatal error, and the client is still configured and connected. -/
theorem overlong_write_keeps_connection :
    Reached configuredSample ∧ (overlong (List.replicate (2 ^ 32) 0)).isFatal ∧
    Task.Runs (ClientCall.write (List.replicate (2 ^ 32) 0)).perform configuredSample []
      (.error (overlong (List.replicate (2 ^ 32) 0))) configuredSample ∧
    configuredSample.state ≠ .disconnected ∧ configuredSample.connection = some 0 ∧
    configuredSample.applied = some {} := by
  have long : maxPayload < (List.replicate (2 ^ 32) (0 : Byte)).length := by
    rw [List.length_replicate]
    decide
  have runs := (write_overlong (c := configuredSample) (by decide) long).mpr ⟨rfl, rfl, rfl⟩
  exact ⟨configuredSample_reached, rfl, runs, by decide, rfl, rfl⟩

end Client

end Sequencer
