import Sequencer.Proofs.SimulatedRun
import Sequencer.Proofs.StreamShape
import Sequencer.Run.Worker

/-!
The verification at the end of a run, against a simulated board that has played the stream.

The board counts samples in 32 bits, a worker multiplies rows and cycles without bound. A complete run
is accepted as long as the product fits, and refused from then on.
-/
namespace Sequencer

/-! ### The configuration of a run -/

namespace Stream
variable {s : Stream} {config : ConfigFrame}

/-- A board is told of two racks if there are two. -/
theorem isSet_controlBits (s : Stream) :
    s.controlBits.isSet Control.twoRacks = decide (s.config.racks = 2) := by
  unfold controlBits
  dsimp only
  -- What the other bits depend on does not matter.
  generalize (!s.errorPolicy.ignoreClockLoss) = lock
  generalize decide (s.config.racks = 2) = two
  generalize (s.options.externalClock.getD false || !decide (s.config.role = Role.primary)) = external
  generalize (!s.config.peers.isEmpty) = sync
  generalize (sync && decide (s.config.role = Role.primary)) = leads
  revert lock two external sync leads
  decide

theorem runningConfig_success (success : s.runningConfig = .ok config) :
    config.clockRate = rateWord s.config.clockRate ∧ config.scanRate = rateWord s.config.busRate ∧
    config.control = s.options.control.getD s.controlBits ∧
    config.cycles = s.options.cycles.getD 1 := by
  unfold runningConfig at success
  obtain ⟨_, success⟩ := guard_success success
  obtain ⟨_, _, success⟩ := bind_success success
  obtain ⟨_, _, success⟩ := bind_success success
  cases success
  exact ⟨rfl, rfl, rfl, rfl⟩

/-- Without routes only the phase can be at fault. -/
theorem runningConfig_succeeds (phase : s.options.syncPhase = none) (inputs : s.options.inputs = none)
    (outputs : s.options.outputs = none) : ∃ config, s.runningConfig = .ok config := by
  unfold runningConfig
  rw [phase, inputs, outputs]
  exact ⟨_, rfl⟩

end Stream

/-! ### The verification -/

namespace Stream
variable {s : Stream} {applied : ConfigFrame} {status : StatusFrame}

/-- What a worker makes of the counters of a complete run. -/
theorem verify_eq (samples : status.samples = .ofNat 32 (s.rows.length * applied.cycles.toNat))
    (time : status.time = .ofNat 32 s.stopTick) (fits : s.stopTick < 2 ^ 32) :
    Worker.verify s applied status =
      if s.rows.length * applied.cycles.toNat < 2 ^ 32 then .ok ()
      else .error (.sampleCount (s.rows.length * applied.cycles.toNat)
        (s.rows.length * applied.cycles.toNat % 2 ^ 32)) := by
  unfold Worker.verify
  dsimp only
  rw [samples, time, BitVec.toNat_ofNat, BitVec.toNat_ofNat, Nat.mod_eq_of_lt fits]
  by_cases small : s.rows.length * applied.cycles.toNat < 2 ^ 32
  · rw [if_pos small, Nat.mod_eq_of_lt small, if_neg (not_not_intro rfl), if_neg (not_not_intro rfl)]
  · have wrapped : s.rows.length * applied.cycles.toNat % 2 ^ 32 ≠ s.rows.length * applied.cycles.toNat := by
      have := Nat.mod_lt (s.rows.length * applied.cycles.toNat) (Nat.two_pow_pos 32)
      omega
    rw [if_neg small, if_pos wrapped]

end Stream

namespace Board
variable {b : Board} {stopTime : Option Float} {s : Stream}

theorem compile_fullRows (sound : Sound b) (success : b.compile stopTime = .ok s) : s.FullRows := by
  obtain ⟨_, _, plans, stop, _, _, _, rfl⟩ := (compile_eq_ok_iff sound).mp success
  intro row listed
  obtain ⟨_, _, words⟩ := mem_rows.mp listed
  rw [words, List.length_map, racks, List.length_range]
  rfl

/-- The ticks of a compiled stream begin with zero, end with the stop tick and fit in 32 bits. -/
theorem compile_ticks (built : Built b) (success : b.compile stopTime = .ok s) :
    s.ticks.head? = some 0 ∧ s.ticks.getLast? = some s.stopTick ∧
      ∀ tick ∈ s.ticks, (BitVec.ofNat 32 tick).toNat = tick := by
  have sound := built.sound
  obtain ⟨_, _, plans, stop, planned, stopped, _, rfl⟩ := (compile_eq_ok_iff sound).mp success
  obtain ⟨late, inRange, _⟩ := stopTick_success stopped
  have ticks : (b.streamOf plans stop).ticks = b.unionTicks plans stop := rows_ticks
  have last := unionTicks_getLast sound planned ((beyond_earliestStop sound planned).mono late)
  have order := b.unionTicks_ascending plans stop
  rw [Stream.stopTick, ticks, last]
  refine ⟨unionTicks_head plans stop, rfl, fun tick listed => ?_⟩
  have upTo : tick ≤ stop := order.le_getLast last listed
  unfold maxTick at inRange
  rw [BitVec.toNat_ofNat, Nat.mod_eq_of_lt (by omega)]

/-- The last tick of a compiled stream, as the board has it. -/
theorem compile_lastTick (built : Built b) (success : b.compile stopTime = .ok s) :
    s.stopTick < 2 ^ 32 ∧ ((s.tickWords.back?).map BitVec.toNat).getD 0 = s.stopTick := by
  obtain ⟨_, last, number⟩ := compile_ticks built success
  have exact_ := number _ (List.mem_of_getLast? last)
  refine ⟨exact_ ▸ (BitVec.ofNat 32 s.stopTick).isLt, ?_⟩
  rw [s.back_tickWords, last]
  exact exact_

theorem compile_rows (built : Built b) (success : b.compile stopTime = .ok s) : 0 < s.rows.length := by
  have head := (compile_ticks built success).1
  cases listed : s.rows with
  | nil =>
    rw [Stream.ticks, listed] at head
    cases head
  | cons row rest => exact Nat.succ_pos _

/-- The board takes its rows to be as wide as a compiled stream has them. -/
theorem compile_width (built : Built b) (success : b.compile stopTime = .ok s)
    (unset : s.options.control = none) {config : ConfigFrame} (configured : s.runningConfig = .ok config) :
    (if config.control.isSet Control.twoRacks then 12 else 8) = s.bytesPerSample := by
  rw [(Stream.runningConfig_success configured).2.2.1, unset, Option.getD_none, s.isSet_controlBits,
    Stream.bytesPerSample, compile_config success]
  rcases built.racks_one_or_two with racks | racks
  all_goals
    rw [racks]
    rfl

/-- A healthy board takes every compiled stream that can be announced and starts it. -/
theorem launch_compiled (built : Built b) (success : b.compile stopTime = .ok s)
    (unset : s.options.control = none) {config : ConfigFrame}
    (configured : s.runningConfig = .ok config) (short : s.bytes.length ≤ Client.maxPayload)
    {sim : SimulatedBoard} (healthy : sim.Healthy) {d : SimulatedBoard.Delivery}
    (whole : d.pieces.flatten = s.bytes) :
    sim.launch? config d =
      some (SimulatedBoard.appliedConfig config, sim.launched s config d.startedAt) :=
  healthy.launch_eq (compile_fullRows built.sound success) (compile_rows built success)
    (compile_width built success unset configured) short whole

/-- A board that plays a compiled stream ends with what a worker expects as far as 32 bits can hold it. -/
theorem verdict_of_plays (built : Built b) (success : b.compile stopTime = .ok s)
    {board : SimulatedBoard} {applied : ConfigFrame} (plays : board.Plays s applied.cycles) {now : Nat}
    (ended : (board.status now).status.isSet Status.ended) :
    Worker.verify s applied (board.status now) =
      if s.rows.length * applied.cycles.toNat < 2 ^ 32 then .ok ()
      else .error (.sampleCount (s.rows.length * applied.cycles.toNat)
        (s.rows.length * applied.cycles.toNat % 2 ^ 32)) := by
  obtain ⟨fits, last⟩ := compile_lastTick built success
  obtain ⟨startedAt, started⟩ := Option.isSome_iff_exists.mp plays.started
  rw [SimulatedBoard.status, started] at ended ⊢
  obtain ⟨samples, time⟩ := (plays.progress last).2 ended
  exact Stream.verify_eq samples time fits

/-- The verdict on a complete run. A healthy board takes the configuration, the stream in whatever pieces
and the start. When it reports its end, after requests that leave it its run, the stop time is right, and
so is the number of samples unless it takes more than 32 bits: then the run is refused. -/
theorem complete_run_verdict (built : Built b) (success : b.compile stopTime = .ok s)
    (unset : s.options.control = none) {config : ConfigFrame}
    (configured : s.runningConfig = .ok config) (short : s.bytes.length ≤ Client.maxPayload)
    {sim : SimulatedBoard} (healthy : sim.Healthy) {d : SimulatedBoard.Delivery}
    (whole : d.pieces.flatten = s.bytes) :
    ∃ applied board, sim.launch? config d = some (applied, board) ∧ applied.cycles = config.cycles ∧
      ∀ requests, (∀ r ∈ requests, r.2.command ∉ SimulatedBoard.unsettling) → ∀ now status,
        ((board.serve requests).handle now .status).2 = some (.statusReply status) →
        status.status.isSet Status.ended →
        Worker.verify s applied status =
          if s.rows.length * applied.cycles.toNat < 2 ^ 32 then .ok ()
          else .error (.sampleCount (s.rows.length * applied.cycles.toNat)
            (s.rows.length * applied.cycles.toNat % 2 ^ 32)) := by
  have cycles := (SimulatedBoard.appliedConfig_eq config).2
  refine ⟨_, _, launch_compiled built success unset configured short healthy whole, cycles, ?_⟩
  intro requests mild now status answered ended
  have plays := (sim.launched_plays s config d.startedAt).serve mild
  rw [← cycles] at plays
  rw [SimulatedBoard.status_of_reply answered] at ended ⊢
  exact verdict_of_plays built success plays ended

/-- Options change nothing but the options of the stream. -/
theorem compile_setOptions (sound : Sound b) (success : b.compile stopTime = .ok s) (options : RunOptions) :
    (b.setOptions options).compile stopTime =
      .ok { s with options := b.config.defaults.merge (b.options.merge options) } := by
  obtain ⟨modes, first, plans, stop, planned, stopped, free, rfl⟩ := (compile_eq_ok_iff sound).mp success
  exact (compile_eq_ok_iff (sound.edit (.options options))).mpr ⟨modes, first, plans, stop, planned, stopped, free, rfl⟩

theorem sample_ticks (success : sample.compile none = .ok s) : s.ticks = [0, 1, 2, 3] := by
  obtain ⟨stop, stopped, ticks⟩ := ticks_of_compile sample_built.sound success
  rw [stopTick_none (by decide +kernel)] at stopped
  cases stopped
  rw [ticks, unionTicks_eq]
  decide +kernel

def repeatedSample (cycles : Word) : Board := sample.setOptions { cycles := some cycles }

theorem repeatedSample_built (cycles : Word) : Built (repeatedSample cycles) :=
  .edit sample_built (.options _)

theorem repeatedSample_compiles (cycles : Word) : ∃ s, (repeatedSample cycles).compile none = .ok s ∧
    s.config = sample.config ∧ s.options = { cycles := some cycles } ∧ s.ticks = [0, 1, 2, 3] := by
  obtain ⟨s, success⟩ := sample_compiles
  have defaults : sample.config.defaults = {} := by decide +kernel
  have unset : sample.options = {} := by decide +kernel
  refine ⟨_, compile_setOptions sample_built.sound success _, ?_, ?_, ?_⟩
  · exact compile_config (s := s) success
  · rw [defaults, unset]
    rfl
  · exact sample_ticks (s := s) success

/-- A board that plays the sample in no time, however often it is repeated. -/
def fast : SimulatedBoard := { name := "main", speed := 1e300 }

theorem fast_healthy : fast.Healthy := ⟨rfl, rfl⟩

theorem fast_ticks {s : Stream} {config : ConfigFrame} (own : s.config = sample.config)
    (configured : s.runningConfig = .ok config) :
    (fast.launched s config 0).ticks 1000 = 2 ^ 64 - 1 := by
  obtain ⟨clock, scan, _⟩ := Stream.runningConfig_success configured
  have rate : (SimulatedBoard.appliedConfig config).scanRate = 1000000 := by
    rw [own] at clock scan
    unfold SimulatedBoard.appliedConfig
    rw [clock, scan, if_neg (by decide +kernel), scan]
    decide +kernel
  show (SimulatedBoard.seconds 1000 * 1e300 *
    (SimulatedBoard.appliedConfig config).scanRate.toNat.toFloat).toUInt64.toNat = _
  rw [rate]
  decide +kernel

/-- The fast board has ended at its first status. -/
theorem repeatedSample_runs (cycles : Word) (positive : cycles ≠ 0) : ∃ s config,
    (repeatedSample cycles).compile none = .ok s ∧ s.options.control = none ∧
    s.runningConfig = .ok config ∧ s.bytes.length ≤ Client.maxPayload ∧ s.rows.length = 4 ∧
    config.cycles = cycles ∧ ((fast.launched s config 0).status 1000).status.isSet Status.ended := by
  obtain ⟨s, success, own, options, ticks⟩ := repeatedSample_compiles cycles
  have rows : s.rows.length = 4 := by
    have counted := congrArg List.length ticks
    rwa [Stream.ticks, List.length_map] at counted
  have short : s.bytes.length ≤ Client.maxPayload := by
    rw [(compile_fullRows (repeatedSample_built cycles).sound success).length_bytes, rows, Stream.bytesPerSample, own]
    decide +kernel
  obtain ⟨config, configured⟩ :=
    Stream.runningConfig_succeeds (s := s) (by rw [options]) (by rw [options]) (by rw [options])
  have repeated : config.cycles = cycles := by
    rw [(Stream.runningConfig_success configured).2.2.2, options]
    rfl
  refine ⟨s, config, success, by rw [options], configured, short, rows, repeated, ?_⟩
  have plays := fast.launched_plays s config 0
  have last := (compile_lastTick (repeatedSample_built cycles) success).2
  have stop : s.stopTick = 3 := by
    rw [Stream.stopTick, ticks]
    rfl
  refine (plays.progress last).1.mpr ⟨?_, ?_⟩
  · rw [repeated]
    exact Nat.pos_of_ne_zero fun zero => positive (BitVec.eq_of_toNat_eq zero)
  · show _ ≤ (fast.launched s config 0).ticks 1000
    rw [fast_ticks own configured, stop, repeated]
    have := cycles.isLt
    omega

/-- Three repetitions are accepted. -/
theorem repeatedSample_accepted : ∃ s config applied board,
    (repeatedSample 3).compile none = .ok s ∧ s.options.control = none ∧
    s.runningConfig = .ok config ∧ s.bytes.length ≤ Client.maxPayload ∧ fast.Healthy ∧
    fast.launch? config ⟨[s.bytes], 0, 0, 0⟩ = some (applied, board) ∧ applied.cycles = 3 ∧
    (board.status 1000).status.isSet Status.ended ∧
    Worker.verify s applied (board.status 1000) = .ok () := by
  obtain ⟨s, config, success, unset, configured, short, rows, repeated, ended⟩ :=
    repeatedSample_runs 3 (by decide)
  have whole : [s.bytes].flatten = s.bytes := List.flatten_singleton
  have launching := launch_compiled (repeatedSample_built 3) success unset configured short fast_healthy
    (d := ⟨[s.bytes], 0, 0, 0⟩) whole
  obtain ⟨applied, board, launched, cycles, verdict⟩ := complete_run_verdict (repeatedSample_built 3)
    success unset configured short fast_healthy (d := ⟨[s.bytes], 0, 0, 0⟩) whole
  obtain ⟨rfl, rfl⟩ := Prod.mk.inj (Option.some.inj (launching.symm.trans launched))
  rw [repeated] at cycles
  refine ⟨s, config, _, _, success, unset, configured, short, fast_healthy, launched, cycles, ended, ?_⟩
  have accepted := verdict [] (by simp) 1000 _ rfl ended
  rw [cycles, rows] at accepted
  exact accepted

/-- Not every complete run is accepted: four rows, repeated 2 ^ 30 times, are 2 ^ 32 samples, and the
board has counted none. -/
theorem complete_run_refused : ¬ ∀ (b : Board) (stopTime : Option Float) (s : Stream)
    (config applied : ConfigFrame) (sim board : SimulatedBoard) (d : SimulatedBoard.Delivery) (now : Nat),
    Built b → b.compile stopTime = .ok s → s.options.control = none → s.runningConfig = .ok config →
    0 < applied.cycles.toNat → sim.Healthy → d.pieces.flatten = s.bytes →
    sim.launch? config d = some (applied, board) → (board.status now).status.isSet Status.ended →
    Worker.verify s applied (board.status now) = .ok () := by
  intro promise
  let cycles : Word := .ofNat 32 (2 ^ 30)
  have built := repeatedSample_built cycles
  obtain ⟨s, config, success, unset, configured, short, rows, repeated, ended⟩ :=
    repeatedSample_runs cycles (by decide)
  have whole : [s.bytes].flatten = s.bytes := List.flatten_singleton
  have launching := launch_compiled built success unset configured short fast_healthy
    (d := ⟨[s.bytes], 0, 0, 0⟩) whole
  have applied : (SimulatedBoard.appliedConfig config).cycles = cycles :=
    (SimulatedBoard.appliedConfig_eq config).2.trans repeated
  have accepted := promise _ none s config _ fast _ _ 1000 built success unset configured
    (by rw [applied]; decide) fast_healthy whole launching ended
  have plays := fast.launched_plays s config 0
  rw [← (SimulatedBoard.appliedConfig_eq config).2] at plays
  rw [verdict_of_plays built success plays ended, rows, applied] at accepted
  cases accepted

end Board

end Sequencer
