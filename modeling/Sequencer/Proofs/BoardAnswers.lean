import Sequencer.Link.Network
import Sequencer.Proofs.Exchange
import Sequencer.Proofs.SimulatedRun
import Sequencer.Proofs.WireFormat

/-!
What a healthy simulated board makes of the requests and the stream that come in over a connection.

Every request has one whole frame for an answer: what it asks for, or a refusal. Only `reset` and `write`
touch the stream that the board holds.
-/
namespace Sequencer

namespace SimulatedBoard
variable {b : SimulatedBoard} {request : Frame}

/-- The stream and the manners of a board are as they were. -/
structure Keeps (b b' : SimulatedBoard) : Prop where
  data : b'.data = b.data
  times : b'.times = b.times
  pending : b'.pending = b.pending
  refuses : b'.refuses = b.refuses
  ignores : b'.ignores = b.ignores

theorem perform_keeps (b : SimulatedBoard) (now : Nat) (noReset : request.command ≠ .reset)
    (noWrite : request.command ≠ .write) : b.Keeps (b.perform now request).1 := by
  cases request with
  | reset | write count => exact absurd rfl (by assumption)
  | start cycles =>
    dsimp only [perform]
    split <;> exact ⟨rfl, rfl, rfl, rfl, rfl⟩
  | stop =>
    dsimp only [perform]
    split <;> exact ⟨rfl, rfl, rfl, rfl, rfl⟩
  | getRegister r =>
    dsimp only [perform]
    split <;> exact ⟨rfl, rfl, rfl, rfl, rfl⟩
  | setRegister r =>
    dsimp only [perform]
    split <;> exact ⟨rfl, rfl, rfl, rfl, rfl⟩
  | _ => exact ⟨rfl, rfl, rfl, rfl, rfl⟩

theorem perform_reply (b : SimulatedBoard) (now : Nat) (request : Frame) :
    (b.perform now request).2.command = request.reply ∨ (b.perform now request).2 = .nack := by
  cases request with
  | write count | start cycles | getRegister r | setRegister r =>
    dsimp only [perform]
    split
    · first | exact .inl rfl | exact .inr rfl
    · first | exact .inl rfl | exact .inr rfl
  | stop =>
    dsimp only [perform]
    split <;> exact .inl rfl
  | openBoard | close | reset | config c | status | statusIrq | statusFull => exact .inl rfl
  | _ => exact .inr rfl

/-- An announcement is refused, or whole samples are awaited. -/
theorem perform_write (b : SimulatedBoard) (now : Nat) {count : Nat} (fits : count < 2 ^ 32) :
    b.perform now (.write (BitVec.ofNat 32 count)) = (b, .nack) ∨
      b.bytesPerSample ≤ count ∧
      b.perform now (.write (BitVec.ofNat 32 count)) =
        ({ b with data := [], times := #[], pending := count }, .ack) := by
  have number : (BitVec.ofNat 32 count).toNat = count := by
    rw [BitVec.toNat_ofNat, Nat.mod_eq_of_lt fits]
  dsimp only [perform]
  rw [number]
  split
  · exact .inl rfl
  · rename_i legal
    obtain ⟨nonzero, whole⟩ := not_or.mp legal
    have positive : 0 < count := by
      refine Nat.pos_of_ne_zero fun zero => nonzero ?_
      rw [zero]
      rfl
    exact .inr ⟨Nat.le_of_dvd positive (Nat.dvd_of_mod_eq_zero (Decidable.not_not.mp whole)), rfl⟩

/-- A board with a stream starts it. -/
theorem perform_start (uploaded : b.times ≠ #[]) (now : Nat) (cycles : Word) :
    (b.perform now (.start cycles)).2 = .ack := by
  have some : ¬b.times.isEmpty := by simpa using uploaded
  dsimp only [perform]
  rw [if_neg some]

theorem bytesPerSample_cases (b : SimulatedBoard) : b.bytesPerSample = 8 ∨ b.bytesPerSample = 12 := by
  unfold bytesPerSample
  split
  · exact .inr rfl
  · exact .inl rfl

theorem length_lastSample (b : SimulatedBoard) : b.lastSample.length = 2 ∨ b.lastSample.length = 3 := by
  have length : b.lastSample.length = b.bytesPerSample / 4 := by
    unfold lastSample
    dsimp only
    split
    · rename_i played
      have enough : b.bytesPerSample ≤ b.data.length := by
        simpa using (Bool.and_eq_true_iff.mp played).2
      rw [Word.length_listOfBytes, List.length_drop, Nat.sub_sub_self enough]
    · rw [List.length_replicate]
  rcases b.bytesPerSample_cases with size | size <;> rw [size] at length
  · exact .inl length
  · exact .inr length

theorem perform_isWhole (b : SimulatedBoard) (now : Nat) (request : Frame) :
    (b.perform now request).2.IsWhole := by
  rcases b.perform_reply now request with command | refused
  · cases request with
    | statusFull => exact b.length_lastSample
    | _ =>
      cases answer : (b.perform now _).2 with
      | statusFullReply s =>
        rw [answer] at command
        cases command
      | _ => trivial
  · rw [refused]
    trivial

/-- The board with the whole stream, of which this was still to come. -/
def loaded (b : SimulatedBoard) (rest : List Byte) : SimulatedBoard :=
  { b with data := b.data ++ rest, pending := 0, times := timeColumn b.bytesPerSample (b.data ++ rest) }

theorem store_last {piece : List Byte} (last : piece.length = b.pending) :
    b.store piece = (b.loaded piece, some .ack) := by
  have none : b.pending - piece.length = 0 := by omega
  unfold store
  dsimp only
  rw [if_pos none, none]
  rfl

theorem store_more {piece : List Byte} (more : piece.length < b.pending) :
    b.store piece = ({ b with data := b.data ++ piece, pending := b.pending - piece.length }, none) :=
  if_neg (Nat.sub_ne_zero_of_lt more)

/-- A stream with one whole sample has a time. -/
theorem timeColumn_ne_empty {size : Nat} {data : List Byte} (word : 4 ≤ size) (enough : size ≤ data.length) :
    timeColumn size data ≠ #[] := by
  cases data with
  | nil => exact absurd enough (by simp; omega)
  | cons first rest =>
    rw [List.length_cons] at enough
    have whole : ¬rest.length < size - 1 := by omega
    have words : (Word.listOfBytes (first :: rest.take (size - 1))).length ≠ 0 := by
      rw [Word.length_listOfBytes, List.length_cons, List.length_take]
      omega
    obtain ⟨time, found⟩ : ∃ time, (Word.listOfBytes (first :: rest.take (size - 1))).head? = some time := by
      rw [← Option.isSome_iff_exists, List.isSome_head?]
      simpa using words
    unfold timeColumn
    rw [wholePieces, if_neg whole]
    simp [found]

end SimulatedBoard

namespace SimulatedLink
variable {b : SimulatedBoard} {l : SimulatedLink}

theorem read_nil (now : Nat) (b : SimulatedBoard) (l : SimulatedLink) :
    read now [] b l = (b, { l with inbox := [] }) := by
  unfold read
  rfl

theorem Front.of_encode {request : Frame} (whole : request.IsWhole) : ∃ first tail,
    request.encode = first :: tail ∧ Front.of (first :: tail) = .frame (some request) tail.length := by
  obtain ⟨low, high, rest, bytes, legal⟩ := whole.header
  refine ⟨low, high :: rest, bytes, ?_⟩
  have all : ¬rest.length + Command.headerBytes < Command.headerBytes + rest.length := by omega
  have size : (low :: high :: rest).take (Command.headerBytes + rest.length) = low :: high :: rest := by
    rw [List.take_of_length_le]
    simp only [List.length_cons, Command.headerBytes]
    omega
  unfold Front.of
  simp only [legal, if_neg all, size]
  rw [← bytes, Frame.decode_encode_of_isWhole whole]
  congr 1
  simp only [Command.headerBytes, List.length_cons]
  omega

/-- A whole request is taken in one piece. -/
theorem read_request (idle : b.pending = 0) {request : Frame} (whole : request.IsWhole) (now : Nat)
    (l : SimulatedLink) : read now request.encode b l =
      ((answer now b l (some request)).1, { (answer now b l (some request)).2 with inbox := [] }) := by
  obtain ⟨first, tail, bytes, front⟩ := Front.of_encode whole
  rw [bytes, read, if_neg (not_not.mpr idle), front]
  dsimp only
  rw [List.drop_length, read_nil]

/-- A piece of the stream that is not more than what is still to come. -/
theorem read_piece {piece : List Byte} (some : piece ≠ []) (fits : piece.length ≤ b.pending) (now : Nat)
    (l : SimulatedLink) : read now piece b l =
      ((b.store piece).1, { l.queue (b.store piece).2 with inbox := [] }) := by
  cases piece with
  | nil => exact absurd rfl some
  | cons first tail =>
    rw [List.length_cons] at fits
    have awaited : b.pending ≠ 0 := by omega
    have all : tail.take (b.pending - 1) = tail := List.take_of_length_le (by omega)
    have drained : tail.drop (b.pending - 1) = [] := List.drop_eq_nil_of_le (by omega)
    rw [read, if_pos awaited, all]
    dsimp only
    rw [drained, read_nil]

/-- An open connection takes whatever is sent. -/
theorem send_open {now : Nat} (alive : l.closed = false) (bytes : List Byte) :
    send now bytes b l = (.ok (), read now (l.inbox ++ bytes) b l) := by
  rw [send, alive]
  rfl

end SimulatedLink
end Sequencer
