import Sequencer.Proofs.InStep
import Sequencer.Proofs.Verification

/-!
A compiled stream on its way over a client to a fresh simulated board.

The width of a row is known from the racks of the compiled board, from the control word of the configuration and
from the length of the bytes. All three agree, so that the board takes the whole stream, in pieces of any length,
and finds the ticks and the last row again in its bytes.
-/
namespace Sequencer

namespace Stream
variable {s : Stream} {config : ConfigFrame}

theorem runningConfig_samples (success : s.runningConfig = .ok config) :
    config.samples = .ofNat 32 s.rows.length := by
  unfold runningConfig at success
  obtain ⟨_, success⟩ := guard_success success
  obtain ⟨_, _, success⟩ := bind_success success
  obtain ⟨_, _, success⟩ := bind_success success
  cases success
  rfl

/-- The last bytes of a stream are its last row. -/
theorem FullRows.lastSample_bytes (full : s.FullRows) {row : Row} (last : s.rows.getLast? = some row) :
    Word.listOfBytes (s.bytes.drop (s.bytes.length - s.bytesPerSample)) = .ofNat 32 row.tick :: row.words := by
  obtain ⟨earlier, rows⟩ := List.getLast?_eq_some_iff.mp last
  have width : row.words.length = s.config.racks :=
    full row (rows ▸ List.mem_append_right _ (List.mem_singleton_self _))
  have split : s.bytes = earlier.flatMap (fun r => (BitVec.ofNat 32 r.tick :: r.words).flatMap Word.littleEndian) ++
      (BitVec.ofNat 32 row.tick :: row.words).flatMap Word.littleEndian := by
    rw [bytes, rows, List.flatMap_append, List.flatMap_singleton]
  have size : ((BitVec.ofNat 32 row.tick :: row.words).flatMap Word.littleEndian).length = s.bytesPerSample := by
    rw [Word.length_littleEndian, List.length_cons, width, bytesPerSample]
  rw [split, List.length_append, size, Nat.add_sub_cancel, List.drop_left, Word.listOfBytes_littleEndian]

end Stream

namespace SimulatedBoard
variable {b : SimulatedBoard} {s : Stream} {config : ConfigFrame}

/-- The board holds the stream, and as many samples of it as a configuration announced. -/
structure Holds (b : SimulatedBoard) (s : Stream) (config : ConfigFrame) : Prop where
  data : b.data = s.bytes
  times : b.times.toList.map BitVec.toNat = s.ticks
  samples : b.times.size = s.rows.length
  announced : b.times.size = config.samples.toNat

/-- A board that was told the width of the rows finds the ticks in their bytes. -/
theorem holds_of_loaded (full : s.FullRows) (ticks : ∀ tick ∈ s.ticks, (BitVec.ofNat 32 tick).toNat = tick)
    (data : b.data = s.bytes) (times : b.times = timeColumn s.bytesPerSample s.bytes)
    (announced : config.samples.toNat = s.rows.length) : b.Holds s config := by
  rw [full.timeColumn_bytes] at times
  have size : b.times.size = s.rows.length := by
    rw [times, s.size_tickWords]
  refine ⟨data, ?_, size, size.trans announced.symm⟩
  rw [times, Stream.tickWords, List.map_map]
  exact (List.map_congr_left ticks).trans (List.map_id _)

/-- A started board shows the last row of its stream. -/
theorem lastSample_eq (full : s.FullRows) (data : b.data = s.bytes) (width : b.bytesPerSample = s.bytesPerSample)
    (started : b.startedAt.isSome) {row : Row} (last : s.rows.getLast? = some row) :
    b.lastSample = .ofNat 32 row.tick :: row.words := by
  have enough : s.bytesPerSample ≤ s.bytes.length := by
    rw [full.length_bytes]
    exact Nat.le_mul_of_pos_left _ (List.length_pos_of_mem (List.mem_of_getLast? last))
  have played : (b.startedAt.isSome && decide (b.bytesPerSample ≤ b.data.length)) = true := by
    rw [started, width, data, Bool.true_and, decide_eq_true_eq]
    exact enough
  rw [← full.lastSample_bytes last, ← data, ← width]
  exact if_pos played

end SimulatedBoard

namespace Session
variable {α : Type} {s : Session} {k : ConnectionId} {b : SimulatedBoard} {state : LinkState} {request : Frame}

/-- A client with an idle connection to a healthy board. -/
structure At (s : Session) (k : ConnectionId) (state : LinkState) (b : SimulatedBoard) : Prop where
  state : s.client.state = state
  linked : s.client.connection = some k
  idle : s.network.Has k b {}
  healthy : b.Healthy
  settled : b.pending = 0

/-- A call succeeds, and takes the client to a state and the board on. -/
structure Succeeds (s : Session) (call : ClientCall) (k : ConnectionId) (state : LinkState) (b : SimulatedBoard) :
    Prop where
  recorded : (s.make call).record = s.record ++ [(call, .ok ())]
  after : (s.make call).At k state b

theorem Succeeds.of_runs {call : ClientCall} {c : Client} {n : Timed}
    (ran : call.perform.runOn Timed.answer s.client s.network = (.ok (), c, n)) (in_ : c.state = state)
    (linked : c.connection = some k) (idle : n.Has k b {}) (healthy : b.Healthy) (settled : b.pending = 0) :
    s.Succeeds call k state b := by
  have made := (s.lastUpload_make call ran).1
  exact ⟨by rw [made], by rw [made]; exact ⟨in_, linked, idle, healthy, settled⟩⟩

theorem At.setChunkBytes (here : s.At k state b) (bytes : UInt64) : s.Succeeds (.setChunkBytes bytes) k state b :=
  .of_runs rfl here.state here.linked here.idle here.healthy here.settled

theorem At.require (here : s.At k state b) {allowed : List LinkState} (connected : state ≠ .disconnected)
    (listed : state ∈ allowed) (operation : Command) :
    (Client.require operation allowed).runOn Timed.answer s.client s.network = (.ok (), s.client, s.network) :=
  Timed.runOn_require (here.state ▸ connected) (here.state ▸ listed) operation

/-- A request in its place that the board grants whenever it hears of it, with what the client makes of it. -/
theorem At.asks {p : LinkM α} {operation : Command} {allowed : List LinkState} {next : Frame → LinkM α}
    {a : Nat → α} {c : Client} (here : s.At k state b) (request : Frame)
    (is : p = Client.require operation allowed >>= fun _ => Client.transact request request.reply >>= next)
    (connected : state ≠ .disconnected) (listed : state ∈ allowed) (whole : request.IsWhole)
    (stays : request.command ≠ .close)
    (granted : ∀ now, ((b.note request.command).perform now request).2.command = request.reply)
    (tail : ∀ now n, (next ((b.note request.command).perform now request).2).runOn Timed.answer s.client n =
      (.ok (a now), c, n)) :
    ∃ n now, p.runOn Timed.answer s.client s.network = (.ok (a now), c, n) ∧
      n.Has k ((b.note request.command).perform now request).1 {} := by
  obtain ⟨n, now, asked, idle⟩ := here.idle.transact here.linked here.healthy here.settled request whole stays
  rw [Client.expect, if_pos (granted now)] at asked
  rw [is, LinkM.runOn_bind_ok (here.require connected listed operation)]
  exact ⟨n, now, (LinkM.runOn_bind_ok asked).trans (tail now n), idle⟩

theorem At.openBoard (here : s.At k .connected b) : ∃ b', s.Succeeds .openBoard k .opened b' := by
  obtain ⟨n, now, ran, idle⟩ := here.asks .openBoard (p := Client.openBoard) (a := fun _ => ())
    (c := { s.client with state := .opened }) rfl (by decide) (by decide) trivial (by decide) (fun _ => rfl)
    fun _ n => by rw [LinkM.runOn_get, if_pos here.state]; rfl
  exact ⟨_, .of_runs ran rfl here.linked idle ⟨here.healthy.refuses, here.healthy.ignores⟩ here.settled⟩

theorem At.reset (here : s.At k .opened b) : ∃ b', s.Succeeds .reset k .opened b' := by
  obtain ⟨n, now, ran, idle⟩ := here.asks .reset (p := Client.reset) rfl (by decide) (by decide) trivial
    (by decide) (fun _ => rfl) fun _ n => rfl
  exact ⟨_, .of_runs ran rfl here.linked idle ⟨here.healthy.refuses, here.healthy.ignores⟩ rfl⟩

theorem At.configure (here : s.At k .opened b) (config : ConfigFrame) : ∃ b',
    s.Succeeds (.configure config) k .configured b' ∧ b'.config = SimulatedBoard.appliedConfig config := by
  let applied := SimulatedBoard.appliedConfig config
  obtain ⟨n, now, ran, idle⟩ := here.asks (.config config) (p := Client.configure config)
    (a := fun _ => applied) (c := { s.client with state := .configured, applied := some applied }) rfl (by decide)
    (by decide) trivial (by simp [Frame.command]) (fun _ => rfl) fun _ n => rfl
  exact ⟨_, .of_runs (LinkM.runOn_bind_ok ran) rfl here.linked idle ⟨here.healthy.refuses, here.healthy.ignores⟩
    here.settled, rfl⟩

/-- Whole samples are stored as they are, in pieces of any length. -/
theorem At.write (here : s.At k .configured b) {payload : List Byte} (positive : 0 < payload.length)
    (short : payload.length ≤ Client.maxPayload) (samples : payload.length % b.bytesPerSample = 0) : ∃ b',
    s.Succeeds (.write payload) k .armed b' ∧ b'.config = b.config ∧ b'.data = payload ∧
      b'.times = SimulatedBoard.timeColumn b.bytesPerSample payload := by
  have range : payload.length < 2 ^ 63 := by
    unfold Client.maxPayload at short
    omega
  obtain ⟨n, now, announced, awaiting⟩ := here.idle.transact here.linked here.healthy here.settled
    (.write (.ofNat 32 payload.length)) trivial (by simp [Frame.command])
  simp only [Frame.command, (b.note .write).perform_write_whole now positive short samples] at announced awaiting
  obtain ⟨n', streamed, idle⟩ :=
    Client.stream_runs awaiting here.linked range (List.ne_nil_of_length_pos positive) rfl
  have ran : (Client.write payload).runOn Timed.answer s.client s.network =
      (.ok (), { s.client with state := .armed }, n') := by
    unfold Client.write
    rw [LinkM.runOn_bind_ok (here.require (by decide) (by decide) .write), if_neg (Nat.not_lt.mpr short)]
    exact (LinkM.runOn_bind_ok announced).trans streamed
  exact ⟨_, .of_runs ran rfl here.linked idle ⟨here.healthy.refuses, here.healthy.ignores⟩ rfl, rfl, rfl, rfl⟩

theorem At.start (here : s.At k .armed b) (uploaded : b.times ≠ #[]) (cycles : Word) : ∃ b',
    s.Succeeds (.start cycles) k .running b' ∧ b'.config = b.config ∧ b'.data = b.data ∧ b'.startedAt.isSome := by
  have loaded : ¬(b.note .start).times.isEmpty := by simpa [SimulatedBoard.note] using uploaded
  have performed (now : Nat) : (b.note (Frame.start cycles).command).perform now (.start cycles) =
      ({ b.note .start with cycles, startedAt := some now, stoppedAfter := none }, .ack) := if_neg loaded
  obtain ⟨n, now, ran, idle⟩ := here.asks (.start cycles) (p := Client.start cycles) (a := fun _ => ())
    (c := { s.client with state := .running }) rfl (by decide) (by decide) trivial (by simp [Frame.command])
    (fun now => by rw [performed]; rfl) fun now n => rfl
  rw [performed] at idle
  refine ⟨_, .of_runs ran rfl here.linked idle ?_ here.settled, rfl, rfl, rfl⟩
  exact ⟨here.healthy.refuses, here.healthy.ignores⟩

/-- The status of a running board shows the end of its stream. -/
theorem At.fullStatus (here : s.At k .running b) : ∃ status c n,
    Client.fullStatus.runOn Timed.answer s.client s.network = (.ok status, c, n) ∧
      status.lastSample = b.lastSample := by
  obtain ⟨n, now, ran, _⟩ := here.asks .statusFull (p := Client.fullStatus)
    (a := fun now => (b.note .statusFull).fullStatus now) (c := s.client) rfl (by decide) (by decide) trivial
    (by decide) (fun _ => rfl) fun now n => rfl
  exact ⟨_, _, n, ran, rfl⟩

/-- What brings a payload to a board, after its configuration and in pieces of a given length. -/
def uploading (chunkBytes : UInt64) (config : ConfigFrame) (payload : List Byte) : List ClientCall :=
  [.setChunkBytes chunkBytes, .openBoard, .reset, .configure config, .write payload]

/-- All calls of an upload succeed if the configured width of a sample cuts the payload evenly. -/
theorem At.upload (here : s.At k .connected b) (chunkBytes : UInt64) {config : ConfigFrame} {payload : List Byte}
    {width : Nat}
    (told : ∀ b : SimulatedBoard, b.config = SimulatedBoard.appliedConfig config → b.bytesPerSample = width)
    (positive : 0 < payload.length) (short : payload.length ≤ Client.maxPayload)
    (samples : payload.length % width = 0) : ∃ b',
    (s.after (uploading chunkBytes config payload)).record =
        s.record ++ (uploading chunkBytes config payload).map (·, .ok ()) ∧
      (s.after (uploading chunkBytes config payload)).At k .armed b' ∧
      b'.config = SimulatedBoard.appliedConfig config ∧ b'.data = payload ∧
      b'.times = SimulatedBoard.timeColumn width payload := by
  obtain ⟨cut, here⟩ := here.setChunkBytes chunkBytes
  obtain ⟨_, opened, here⟩ := here.openBoard
  obtain ⟨_, cleared, here⟩ := here.reset
  obtain ⟨_, ⟨configured, here⟩, applied⟩ := here.configure config
  have width := told _ applied
  obtain ⟨b', ⟨written, here⟩, same, data, times⟩ := here.write positive short (width ▸ samples)
  rw [width] at times
  simp only [uploading, after, List.foldl_cons, List.foldl_nil]
  refine ⟨b', ?_, here, same.trans applied, data, times⟩
  rw [written, configured, cleared, opened, cut]
  simp only [List.map_cons, List.map_nil, List.append_assoc, List.cons_append, List.nil_append]

/-- A board that holds a stream plays it, and its status then shows the last row. -/
theorem At.plays {s : Stream} {t : Session} (here : t.At k .armed b) (full : s.FullRows) (rows : 0 < s.rows.length)
    (holds : b.Holds s config)
    (width : ∀ b' : SimulatedBoard, b'.config = b.config → b'.bytesPerSample = s.bytesPerSample)
    (ticks : ∀ tick ∈ s.ticks, (BitVec.ofNat 32 tick).toNat = tick) (cycles : Word) :
    (t.make (.start cycles)).record = t.record ++ [(.start cycles, .ok ())] ∧
    ∃ row status c n, s.rows.getLast? = some row ∧
      Client.fullStatus.runOn Timed.answer (t.make (.start cycles)).client (t.make (.start cycles)).network =
        (.ok status, c, n) ∧
      status.lastSample.map BitVec.toNat = row.tick :: row.words.map BitVec.toNat := by
  have uploaded : b.times ≠ #[] := Array.size_pos_iff.mp (holds.samples ▸ rows)
  obtain ⟨b', ⟨recorded, here⟩, config, data, started⟩ := here.start uploaded cycles
  obtain ⟨status, c, n, answered, shown⟩ := here.fullStatus
  have last := List.getLast?_eq_some_getLast (List.ne_nil_of_length_pos rows)
  refine ⟨recorded, _, status, c, n, last, answered, ?_⟩
  rw [shown, SimulatedBoard.lastSample_eq full (data.trans holds.data) (width b' config) started last,
    List.map_cons, ticks _ (List.mem_map_of_mem (List.mem_of_getLast? last))]

/-- A fresh board takes a compiled stream after its configuration. Then it holds all bytes, ticks and samples of
the stream, and as soon as it was started shows its last row. -/
theorem upload_agrees {b : Board} {stopTime : Option Float} {s : Stream} {config : ConfigFrame} {start : Session}
    (built : Board.Built b) (success : b.compile stopTime = .ok s) (unset : s.options.control = none)
    (configured : s.runningConfig = .ok config) (short : s.bytes.length ≤ Client.maxPayload)
    (fresh : start.IsFresh k) (chunkBytes : UInt64) :
    let calls : List ClientCall :=
      [.setChunkBytes chunkBytes, .openBoard, .reset, .configure config, .write s.bytes]
    (start.after calls).record = calls.map (·, .ok ()) ∧ (start.after calls).client.state = .armed ∧
    (start.after calls).network.network.board.Holds s config ∧
    ∀ cycles, ((start.after calls).make (.start cycles)).record =
        (start.after calls).record ++ [(.start cycles, .ok ())] ∧
      ∃ row status c n, s.rows.getLast? = some row ∧
        Client.fullStatus.runOn Timed.answer ((start.after calls).make (.start cycles)).client
          ((start.after calls).make (.start cycles)).network = (.ok status, c, n) ∧
        status.lastSample.map BitVec.toNat = row.tick :: row.words.map BitVec.toNat := by
  intro calls
  have upload : calls = uploading chunkBytes config s.bytes := rfl
  clear_value calls
  subst upload
  have full := Board.compile_fullRows built.sound success
  have rows := Board.compile_rows built success
  obtain ⟨_, _, inRange⟩ := Board.compile_ticks built success
  have width (b : SimulatedBoard) (told : b.config = SimulatedBoard.appliedConfig config) :
      b.bytesPerSample = s.bytesPerSample := by
    rw [SimulatedBoard.bytesPerSample, told, (SimulatedBoard.appliedConfig_eq config).1]
    exact Board.compile_width built success unset configured
  have many : s.rows.length ≤ s.bytes.length := by
    rw [full.length_bytes]
    exact Nat.le_mul_of_pos_right _ (by unfold Stream.bytesPerSample; omega)
  have whole : s.bytes.length % s.bytesPerSample = 0 := by
    rw [full.length_bytes]
    exact Nat.mul_mod_left _ _
  have here : start.At k .connected start.network.network.board :=
    ⟨fresh.state, fresh.linked, ⟨rfl, fresh.endpoint⟩, fresh.healthy, fresh.settled⟩
  obtain ⟨b', recorded, here, applied, data, times⟩ := here.upload chunkBytes width (by omega) short whole
  have holds : b'.Holds s config := by
    refine SimulatedBoard.holds_of_loaded full inRange data times ?_
    unfold Client.maxPayload at short
    rw [Stream.runningConfig_samples configured, BitVec.toNat_ofNat, Nat.mod_eq_of_lt (by omega)]
  refine ⟨by rw [recorded, fresh.unused, List.nil_append], here.state, here.idle.board ▸ holds, fun cycles => ?_⟩
  exact here.plays full rows holds (fun b told => width b (told.trans applied)) inRange cycles

/-- A stream for two racks, in pieces of seven bytes. -/
theorem mixed_uploads : ∃ s config, Board.mixed.compile none = .ok s ∧ s.runningConfig = .ok config ∧
    s.config.racks = 2 ∧ sample.IsFresh 0 ∧
    let calls : List ClientCall := [.setChunkBytes 7, .openBoard, .reset, .configure config, .write s.bytes]
    (sample.after calls).network.network.board.Holds s config := by
  obtain ⟨s, success⟩ := Board.mixed_compiles
  have own := Board.compile_config success
  have racks : s.config.racks = 2 := by
    rw [own]
    decide +kernel
  have options : s.options = {} := by
    have unset : Board.mixed.config.defaults.merge Board.mixed.options = {} := by decide +kernel
    rw [Board.eq_streamWith success]
    exact unset
  have short : s.bytes.length ≤ Client.maxPayload := by
    have rows := congrArg List.length (Board.mixed_ticks success)
    rw [Stream.ticks, List.length_map] at rows
    rw [(Board.compile_fullRows Board.mixed_built.sound success).length_bytes, rows, Stream.bytesPerSample, racks]
    decide
  obtain ⟨config, configured⟩ :=
    Stream.runningConfig_succeeds (s := s) (by rw [options]) (by rw [options]) (by rw [options])
  have fresh : sample.IsFresh 0 := ⟨rfl, rfl, rfl, ⟨rfl, rfl⟩, rfl, rfl⟩
  obtain ⟨_, _, holds, _⟩ := upload_agrees Board.mixed_built success (by rw [options]) configured short fresh 7
  exact ⟨s, config, success, configured, racks, fresh, holds⟩

end Session
end Sequencer
