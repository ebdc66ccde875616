import Sequencer.Link.Client
import Sequencer.Link.Simulated
import Sequencer.Proofs.FrameCodec
import Sequencer.Stream.Basic

/-!
A stream on a simulated board, from its upload to its end.

The bytes may come in any pieces: with the last of them the board's time column holds the ticks of all
rows. Once started, the board keeps the stream and its number of cycles until it is reset, loaded or started
again, and its end is decided by the ticks that have gone by.
-/
namespace Sequencer

/-! ### The bytes of a stream -/

/-- Blocks of one length are found again in their bytes. -/
theorem wholePieces_flatMap {α : Type} {size : Nat} {blocks : List (α × List α)}
    (width : ∀ b ∈ blocks, b.2.length = size) :
    wholePieces size (blocks.flatMap fun b => b.1 :: b.2) = blocks := by
  induction blocks with
  | nil =>
    rw [List.flatMap_nil]
    unfold wholePieces
    rfl
  | cons block rest ih =>
    obtain ⟨first, later⟩ := block
    obtain rfl : later.length = size := width _ List.mem_cons_self
    have enough : ¬ (later ++ rest.flatMap fun b => b.1 :: b.2).length < later.length := by
      rw [List.length_append]
      omega
    rw [List.flatMap_cons, List.cons_append, wholePieces, if_neg enough, List.take_left,
      List.drop_left, ih fun b member => width b (List.mem_cons_of_mem _ member)]

/-- The bytes of a sample: its time and a word for each rack. -/
def sampleBytes (s : Word × List Word) : List Byte := (s.1 :: s.2).flatMap Word.littleEndian

/-- The first byte of a sample and the bytes after it. -/
def sampleBlock (s : Word × List Word) : Byte × List Byte :=
  (s.1.extractLsb' 0 8, (Word.littleEndian s.1).tail ++ s.2.flatMap Word.littleEndian)

theorem sampleBlock_bytes (s : Word × List Word) : (sampleBlock s).1 :: (sampleBlock s).2 = sampleBytes s := rfl

theorem length_sampleBytes (s : Word × List Word) : (sampleBytes s).length = 4 * (s.2.length + 1) := by
  rw [sampleBytes, Word.length_littleEndian, List.length_cons]

/-- The times of samples of one width are found again in their bytes. -/
theorem SimulatedBoard.timeColumn_samples {samples : List (Word × List Word)} {racks : Nat}
    (full : ∀ s ∈ samples, s.2.length = racks) :
    timeColumn (4 * (racks + 1)) (samples.flatMap sampleBytes) = (samples.map Prod.fst).toArray := by
  have width : ∀ b ∈ samples.map sampleBlock, b.2.length = 4 * (racks + 1) - 1 := by
    intro b member
    obtain ⟨s, listed, rfl⟩ := List.mem_map.mp member
    have whole := congrArg List.length (sampleBlock_bytes s)
    rw [length_sampleBytes, List.length_cons, full s listed] at whole
    omega
  have blocks : samples.flatMap sampleBytes = (samples.map sampleBlock).flatMap fun b => b.1 :: b.2 := by
    rw [List.flatMap_map]
    rfl
  have time : (fun b : Byte × List Byte => (Word.listOfBytes (b.1 :: b.2)).head?) ∘ sampleBlock =
      some ∘ Prod.fst := by
    funext s
    simp only [Function.comp_apply, sampleBlock_bytes, sampleBytes, Word.listOfBytes_littleEndian, List.head?_cons]
  rw [timeColumn, blocks, wholePieces_flatMap width, List.filterMap_map, time, List.filterMap_eq_map]

namespace Stream

/-- Every row has a word for each rack. -/
def FullRows (s : Stream) : Prop := ∀ row ∈ s.rows, row.words.length = s.config.racks

/-- The ticks of the rows as they are sent. -/
def tickWords (s : Stream) : Array Word := (s.ticks.map (BitVec.ofNat 32)).toArray

variable {s : Stream}

/-- The rows as the board gets them. -/
def samples (s : Stream) : List (Word × List Word) := s.rows.map fun row => (.ofNat 32 row.tick, row.words)

theorem bytes_eq (s : Stream) : s.bytes = s.samples.flatMap sampleBytes := by
  rw [samples, List.flatMap_map]
  rfl

theorem FullRows.length_bytes (full : s.FullRows) :
    s.bytes.length = s.rows.length * s.bytesPerSample := by
  have width : ∀ row ∈ s.rows, ((BitVec.ofNat 32 row.tick :: row.words).flatMap Word.littleEndian).length =
      s.bytesPerSample := by
    intro row listed
    rw [Word.length_littleEndian, List.length_cons, full row listed, bytesPerSample]
  rw [bytes, List.length_flatMap, List.map_congr_left width, List.map_const', List.sum_replicate_nat]

theorem FullRows.timeColumn_bytes (full : s.FullRows) :
    SimulatedBoard.timeColumn s.bytesPerSample s.bytes = s.tickWords := by
  have width : ∀ sample ∈ s.samples, sample.2.length = s.config.racks := by
    intro sample member
    obtain ⟨row, listed, rfl⟩ := List.mem_map.mp member
    exact full row listed
  rw [bytes_eq, bytesPerSample, SimulatedBoard.timeColumn_samples width, tickWords, samples, ticks, List.map_map,
    List.map_map]
  rfl

theorem size_tickWords (s : Stream) : s.tickWords.size = s.rows.length := by
  rw [tickWords, List.size_toArray, List.length_map, ticks, List.length_map]

theorem back_tickWords (s : Stream) : s.tickWords.back? = s.ticks.getLast?.map (BitVec.ofNat 32) := by
  rw [tickWords, List.back?_toArray, List.getLast?_map]

end Stream

/-! ### Upload and start -/

namespace SimulatedBoard
variable {b : SimulatedBoard} {s : Stream} {cycles : Word}

/-- The board after pieces of a stream, and its answer to the last of them. -/
def takeIn (b : SimulatedBoard) (answer : Option Frame) (pieces : List (List Byte)) :
    SimulatedBoard × Option Frame :=
  pieces.foldl (fun state piece => state.1.store piece) (b, answer)

/-- An announced stream is acknowledged with its last piece. -/
theorem takeIn_eq {answer : Option Frame} {pieces : List (List Byte)}
    (announced : b.pending = pieces.flatten.length)
    (complete : b.pending = 0 → b.times = timeColumn b.bytesPerSample b.data ∧ answer = some .ack) :
    b.takeIn answer pieces =
      ({ b with data := b.data ++ pieces.flatten, pending := 0,
                times := timeColumn b.bytesPerSample (b.data ++ pieces.flatten) }, some .ack) := by
  induction pieces generalizing b answer with
  | nil =>
    have none : b.pending = 0 := announced
    obtain ⟨current, rfl⟩ := complete none
    rw [takeIn, List.foldl_nil, List.flatten_nil, List.append_nil, ← current, ← none]
  | cons piece rest ih =>
    rw [List.flatten_cons, List.length_append] at announced
    rw [takeIn, List.foldl_cons, List.flatten_cons, ← List.append_assoc]
    unfold store
    dsimp only
    split
    · rename_i last
      exact ih (by simp only; omega) fun _ => ⟨rfl, rfl⟩
    · rename_i more
      exact ih (by simp only; omega) fun none => absurd none more

structure Healthy (b : SimulatedBoard) : Prop where
  refuses : b.refuses = []
  ignores : b.ignores = []

/-- The board with one more request on its list. -/
def note (b : SimulatedBoard) (c : Command) : SimulatedBoard := { b with received := b.received ++ [c] }

/-- A request that is neither ignored nor refused. -/
theorem handle_granted {request : Frame} (heard : request.command ∉ b.ignores) (granted : request.command ∉ b.refuses)
    (now : Nat) : b.handle now request = (((b.note request.command).perform now request).1,
      some ((b.note request.command).perform now request).2) :=
  (if_neg heard).trans (if_neg granted)

theorem Healthy.handle_eq (healthy : b.Healthy) (now : Nat) (request : Frame) :
    b.handle now request = (((b.note request.command).perform now request).1,
      some ((b.note request.command).perform now request).2) := by
  refine handle_granted ?_ ?_ now
  · rw [healthy.ignores]
    exact List.not_mem_nil
  · rw [healthy.refuses]
    exact List.not_mem_nil

/-- A stream on its way to a board, with the times of the three requests. -/
structure Delivery where
  pieces : List (List Byte)
  configuredAt : Nat
  announcedAt : Nat
  startedAt : Nat

/-- The board after a request that it acknowledges. -/
def grant? (b : SimulatedBoard) (now : Nat) (request : Frame) : Option SimulatedBoard :=
  match b.handle now request with
  | (b, some .ack) => some b
  | _ => none

theorem Healthy.grant_eq (healthy : b.Healthy) {now : Nat} {request : Frame} {b' : SimulatedBoard}
    (performed : (b.note request.command).perform now request = (b', .ack)) :
    b.grant? now request = some b' := by
  unfold grant?
  rw [healthy.handle_eq, performed]

/-- What a worker does to start a run. The result is the configuration that the board applied, and the
board; none as soon as the board does not go along. -/
def launch? (b : SimulatedBoard) (config : ConfigFrame) (d : Delivery) :
    Option (ConfigFrame × SimulatedBoard) :=
  match b.handle d.configuredAt (.config config) with
  | (b, some (.config applied)) => do
    let b ← b.grant? d.announcedAt (.write (.ofNat 32 d.pieces.flatten.length))
    match b.takeIn none d.pieces with
    | (b, some .ack) => do
      let b ← b.grant? d.startedAt (.start applied.cycles)
      return (applied, b)
    | _ => none
  | _ => none

/-- The board that plays a stream. -/
def launched (b : SimulatedBoard) (s : Stream) (config : ConfigFrame) (startedAt : Nat) :
    SimulatedBoard :=
  { b with config := appliedConfig config, data := s.bytes, times := s.tickWords, pending := 0,
           cycles := config.cycles, startedAt := some startedAt, stoppedAfter := none,
           received := b.received ++ [.config, .write, .start] }

theorem appliedConfig_eq (c : ConfigFrame) :
    (appliedConfig c).control = c.control ∧ (appliedConfig c).cycles = c.cycles := by
  unfold appliedConfig
  split <;> exact ⟨rfl, rfl⟩

theorem Healthy.handle_config (healthy : b.Healthy) (now : Nat) (c : ConfigFrame) :
    b.handle now (.config c) =
      ({ b with config := appliedConfig c, received := b.received ++ [.config] },
        some (.config (appliedConfig c))) :=
  healthy.handle_eq now _

/-- An announcement of whole rows is acknowledged. -/
theorem perform_write_whole (b : SimulatedBoard) (now : Nat) {count : Nat} (positive : 0 < count)
    (fits : count ≤ Client.maxPayload) (whole : count % b.bytesPerSample = 0) :
    b.perform now (.write (.ofNat 32 count)) = ({ b with data := [], times := #[], pending := count }, .ack) := by
  have number : (BitVec.ofNat 32 count).toNat = count := by
    unfold Client.maxPayload at fits
    rw [BitVec.toNat_ofNat, Nat.mod_eq_of_lt (by omega)]
  have legal : ¬ (BitVec.ofNat 32 count = 0 ∨ (BitVec.ofNat 32 count).toNat % b.bytesPerSample ≠ 0) := by
    rintro (zero | uneven)
    · rw [zero] at number
      exact Nat.ne_of_gt positive number.symm
    · rw [number] at uneven
      exact uneven whole
  refine (if_neg legal).trans ?_
  rw [number]

theorem Healthy.grant_write (healthy : b.Healthy) (now : Nat) {count : Nat} (positive : 0 < count)
    (fits : count ≤ Client.maxPayload) (whole : count % b.bytesPerSample = 0) :
    b.grant? now (.write (.ofNat 32 count)) =
      some { b with data := [], times := #[], pending := count, received := b.received ++ [.write] } :=
  healthy.grant_eq ((b.note .write).perform_write_whole now positive fits whole)

theorem Healthy.grant_start (healthy : b.Healthy) (now : Nat) (cycles : Word)
    (uploaded : b.times.isEmpty = false) :
    b.grant? now (.start cycles) =
      some { b with cycles, startedAt := some now, stoppedAfter := none,
                    received := b.received ++ [.start] } := by
  refine healthy.grant_eq (if_neg ?_)
  show ¬ b.times.isEmpty
  rw [uploaded]
  exact Bool.false_ne_true

theorem launch_of {b₁ b₂ b₃ b₄ : SimulatedBoard} {config applied : ConfigFrame} {d : Delivery}
    (configured : b.handle d.configuredAt (.config config) = (b₁, some (.config applied)))
    (announced : b₁.grant? d.announcedAt (.write (.ofNat 32 d.pieces.flatten.length)) = some b₂)
    (uploaded : b₂.takeIn none d.pieces = (b₃, some .ack))
    (started : b₃.grant? d.startedAt (.start applied.cycles) = some b₄) :
    b.launch? config d = some (applied, b₄) := by
  unfold launch?
  simp only [configured, announced, uploaded, started, bind, Option.bind]
  rfl

/-- A healthy board takes a whole stream and starts it. -/
theorem Healthy.launch_eq (healthy : b.Healthy) {config : ConfigFrame} {d : Delivery} (full : s.FullRows)
    (rows : 0 < s.rows.length)
    (width : (if config.control.isSet Control.twoRacks then 12 else 8) = s.bytesPerSample)
    (short : s.bytes.length ≤ Client.maxPayload) (whole : d.pieces.flatten = s.bytes) :
    b.launch? config d = some (appliedConfig config, b.launched s config d.startedAt) := by
  have column := full.timeColumn_bytes
  have bytes := full.length_bytes
  rw [← whole] at column bytes short
  have positive : 0 < d.pieces.flatten.length := by
    rw [bytes]
    exact Nat.mul_pos rows (by unfold Stream.bytesPerSample; omega)
  have uploaded : s.tickWords.isEmpty = false := by
    rw [Array.isEmpty, s.size_tickWords]
    exact decide_eq_false (Nat.ne_of_gt rows)
  have perSample : ∀ b' : SimulatedBoard, b'.config = appliedConfig config →
      b'.bytesPerSample = s.bytesPerSample := by
    intro b' same
    rw [bytesPerSample, same, (appliedConfig_eq config).1, width]
  refine launch_of (healthy.handle_config _ _) (Healthy.grant_write ?_ _ positive short ?_)
    (takeIn_eq rfl fun none => absurd none (Nat.ne_of_gt positive))
    ((Healthy.grant_start ?_ _ _ ?_).trans ?_)
  · exact ⟨healthy.refuses, healthy.ignores⟩
  · rw [perSample _ rfl, bytes]
    exact Nat.mul_mod_left _ _
  · exact ⟨healthy.refuses, healthy.ignores⟩
  · rw [List.nil_append, perSample _ rfl, column]
    exact uploaded
  · rw [List.nil_append, perSample _ rfl, column, whole, (appliedConfig_eq config).2]
    simp only [launched, List.append_assoc]
    rfl

end SimulatedBoard

/-! ### The end of a run -/

theorem Progress.of_ended {times : Array Word} {cycles ticks : Nat} :
    (Progress.of times cycles ticks).ended ↔
      0 < cycles ∧ (((times.back?).map BitVec.toNat).getD 0 + 1) * cycles ≤ ticks := by
  unfold Progress.of
  dsimp only
  split
  · rename_i reached
    exact iff_of_true rfl reached
  · rename_i early
    exact iff_of_false Bool.false_ne_true early

theorem Progress.of_eq {times : Array Word} {cycles ticks : Nat}
    (ended : (Progress.of times cycles ticks).ended) :
    Progress.of times cycles ticks =
      ⟨true, ((times.back?).map BitVec.toNat).getD 0, times.size * cycles, cycles⟩ := by
  unfold Progress.of
  exact if_pos (Progress.of_ended.mp ended)

namespace SimulatedBoard
variable {b : SimulatedBoard} {s : Stream} {cycles : Word}

theorem clockStatus_cases (b : SimulatedBoard) : b.clockStatus = Status.ready ∨
    b.clockStatus = Status.ready ||| Status.externalUsed ∨
    b.clockStatus = Status.ready ||| Status.externalUsed ||| Status.externalLocked := by
  unfold clockStatus
  split
  · split <;> simp
  · simp

theorem isSet_statusAfter (b : SimulatedBoard) (ticks : Nat) :
    (b.statusAfter ticks).status.isSet Status.ended =
      (Progress.of b.times b.cycles.toNat ticks).ended := by
  unfold statusAfter
  dsimp only
  generalize b.config.control.isSet Control.lockErrorEnable = enabled
  generalize b.stoppedAfter.isNone = running
  generalize (Progress.of b.times b.cycles.toNat ticks).ended = ended
  rcases b.clockStatus_cases with clock | clock | clock
  all_goals
    rw [clock]
    revert enabled running ended
    decide

/-! ### While the board runs -/

/-- A started board with the stream. -/
structure Plays (b : SimulatedBoard) (s : Stream) (cycles : Word) : Prop where
  times : b.times = s.tickWords
  cycles : b.cycles = cycles
  started : b.startedAt.isSome

theorem launched_plays (b : SimulatedBoard) (s : Stream) (config : ConfigFrame) (startedAt : Nat) :
    (b.launched s config startedAt).Plays s config.cycles := ⟨rfl, rfl, rfl⟩

/-- Requests that take the stream or its start from a board. -/
def unsettling : List Command := [.reset, .write, .start]

theorem Plays.perform (plays : b.Plays s cycles) (now : Nat) {request : Frame}
    (mild : request.command ∉ unsettling) : (b.perform now request).1.Plays s cycles := by
  obtain ⟨times, same, started⟩ := plays
  cases request with
  | reset | write count | start count => exact absurd (by simp [unsettling, Frame.command]) mild
  | stop =>
    obtain ⟨startedAt, found⟩ := Option.isSome_iff_exists.mp started
    dsimp only [SimulatedBoard.perform]
    rw [found]
    exact ⟨times, same, rfl⟩
  | getRegister r =>
    dsimp only [SimulatedBoard.perform]
    generalize b.readRegister? now r.offset = value
    cases value with
    | none => exact ⟨times, same, started⟩
    | some value => exact ⟨times, same, started⟩
  | setRegister r =>
    dsimp only [SimulatedBoard.perform]
    generalize writeRegister? b.config r.offset r.value = written
    cases written with
    | none => exact ⟨times, same, started⟩
    | some config => exact ⟨times, same, started⟩
  | _ => exact ⟨times, same, started⟩

theorem Plays.handle (plays : b.Plays s cycles) (now : Nat) {request : Frame}
    (mild : request.command ∉ unsettling) : (b.handle now request).1.Plays s cycles := by
  have noted : (b.note request.command).Plays s cycles := ⟨plays.times, plays.cycles, plays.started⟩
  unfold SimulatedBoard.handle
  dsimp only
  split
  · exact noted
  · split
    · exact noted
    · exact noted.perform now mild

/-- The board after requests, each at its time. -/
def serve (b : SimulatedBoard) (requests : List (Nat × Frame)) : SimulatedBoard :=
  requests.foldl (fun b r => (b.handle r.1 r.2).1) b

theorem Plays.serve {requests : List (Nat × Frame)} (plays : b.Plays s cycles)
    (mild : ∀ r ∈ requests, r.2.command ∉ unsettling) : (b.serve requests).Plays s cycles := by
  induction requests generalizing b with
  | nil => exact plays
  | cons request rest ih =>
    exact ih (plays.handle request.1 (mild _ List.mem_cons_self))
      fun r later => mild r (List.mem_cons_of_mem _ later)

theorem status_of_reply {now : Nat} {status : StatusFrame}
    (answered : (b.handle now .status).2 = some (.statusReply status)) : status = b.status now := by
  unfold SimulatedBoard.handle at answered
  dsimp only at answered
  split at answered
  · cases answered
  · split at answered
    · cases answered
    · cases answered
      rfl

/-- The end is reported when all cycles have been played, and then with what they come to in 32 bits. -/
theorem Plays.progress (plays : b.Plays s cycles) {ticks : Nat}
    (last : ((s.tickWords.back?).map BitVec.toNat).getD 0 = s.stopTick) :
    ((b.statusAfter ticks).status.isSet Status.ended ↔
      0 < cycles.toNat ∧ (s.stopTick + 1) * cycles.toNat ≤ ticks) ∧
    ((b.statusAfter ticks).status.isSet Status.ended →
      (b.statusAfter ticks).samples = .ofNat 32 (s.rows.length * cycles.toNat) ∧
      (b.statusAfter ticks).time = .ofNat 32 s.stopTick) := by
  rw [b.isSet_statusAfter, plays.times, plays.cycles]
  constructor
  · rw [Progress.of_ended, last]
  · intro ended
    unfold statusAfter
    rw [plays.times, plays.cycles, Progress.of_eq ended, last, s.size_tickWords]
    exact ⟨rfl, rfl⟩

end SimulatedBoard

end Sequencer
