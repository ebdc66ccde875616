import Sequencer.Link.Frame

/-!
Frames on the wire: what `encode` writes, `decode` reads back.
-/
namespace Sequencer

namespace Word

theorem ofLittleEndian_bytes (w : Word) :
    ofLittleEndian (w.extractLsb' 0 8) (w.extractLsb' 8 8) (w.extractLsb' 16 8)
      (w.extractLsb' 24 8) = w := by
  apply BitVec.eq_of_toNat_eq
  simp only [ofLittleEndian, BitVec.toNat_append, BitVec.extractLsb'_toNat, Nat.shiftRight_eq_div_pow]
  have bound := w.isLt
  rw [← Nat.shiftLeft_add_eq_or_of_lt (by omega), ← Nat.shiftLeft_add_eq_or_of_lt (by omega),
    ← Nat.shiftLeft_add_eq_or_of_lt (by omega)]
  simp only [Nat.shiftLeft_eq]
  omega

theorem listOfBytes_littleEndian (words : List Word) :
    listOfBytes (words.flatMap littleEndian) = words := by
  induction words with
  | nil => rfl
  | cons w rest ih =>
    rw [List.flatMap_cons, littleEndian]
    simp only [List.cons_append, List.nil_append, listOfBytes, ih, ofLittleEndian_bytes]

theorem length_littleEndian (words : List Word) :
    (words.flatMap littleEndian).length = 4 * words.length := by
  induction words with
  | nil => rfl
  | cons w rest ih =>
    rw [List.flatMap_cons, List.length_append, ih, List.length_cons]
    simp only [littleEndian, List.length_cons, List.length_nil]
    omega

end Word

/-- A header of a legal size is read back. -/
theorem Header.check_header {c : Command} {size : Nat} (legal : size ∈ c.frameSizes) :
    Header.check (Header.ofBytes ((c.header size).extractLsb' 0 8) ((c.header size).extractLsb' 8 8)) =
      .ok (c, size) := by
  cases c <;> simp only [Command.frameSizes, Command.headerBytes, List.mem_cons, List.not_mem_nil,
    or_false] at legal
  case statusFullReply => rcases legal with rfl | rfl <;> rfl
  all_goals
    subst legal
    rfl

namespace Frame

theorem decode_encode_of {f : Frame}
    (size : Command.headerBytes + 4 * f.payload.length ∈ f.command.frameSizes)
    (words : ofWords? f.command f.payload = some f) : decode f.encode = .ok f := by
  unfold encode
  simp only [Header.bytes, List.cons_append, List.nil_append, decode, Header.check_header size,
    Word.length_littleEndian, Word.listOfBytes_littleEndian, bind, Except.bind, ne_eq,
    not_true_eq_false, ↓reduceIte]
  rw [words]
  rfl

/-- Everything but the long status report has one size only. -/
theorem decode_encode {f : Frame} (short : f.command ≠ .statusFullReply) :
    decode f.encode = .ok f := by
  cases f with
  | statusFullReply s => exact absurd rfl short
  | _ => exact decode_encode_of (by simp [payload, command, Command.frameSizes, Command.headerBytes]) rfl

section
variable {f : Frame}

theorem eq_ack (command : f.command = .ack) : f = .ack := by
  cases f <;> simp_all [Frame.command]

theorem eq_nack (command : f.command = .nack) : f = .nack := by
  cases f <;> simp_all [Frame.command]

theorem eq_config (command : f.command = .config) : ∃ config, f = .config config := by
  cases f <;> simp_all [Frame.command]

theorem eq_setRegister (command : f.command = .setRegister) : ∃ register, f = .setRegister register := by
  cases f <;> simp_all [Frame.command]

theorem eq_statusReply (command : f.command = .statusReply) : ∃ status, f = .statusReply status := by
  cases f <;> simp_all [Frame.command]

end

end Frame

end Sequencer
