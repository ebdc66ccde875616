import Sequencer.Proofs.FrameCodec
import Sequencer.Proofs.Success

/-!
The wire format as a bijection between frames and the byte sequences that `decode` accepts.

The legal sizes of a command are those of its words, so whatever passes the checks of `decode` has every
word that is read. The size in the header has ten bits only. A report that is too long may therefore
announce a legal size, but it still has other bytes than every frame that is read back, because `encode` is
injective on all frames.
-/
namespace Sequencer

namespace Word

theorem littleEndian_ofLittleEndian (b0 b1 b2 b3 : Byte) :
    (ofLittleEndian b0 b1 b2 b3).littleEndian = [b0, b1, b2, b3] := by
  simp only [littleEndian, ofLittleEndian, List.cons.injEq, and_true]
  refine ⟨?_, ?_, ?_, ?_⟩
  all_goals
    apply BitVec.eq_of_getLsbD_eq
    intro i inside
    simp only [BitVec.getLsbD_extractLsb', BitVec.getLsbD_append]
    grind

theorem length_listOfBytes (bytes : List Byte) : (listOfBytes bytes).length = bytes.length / 4 := by
  match bytes with
  | b0 :: b1 :: b2 :: b3 :: rest =>
    simp only [listOfBytes, List.length_cons, length_listOfBytes rest]
    omega
  | [] | [_] | [_, _] | [_, _, _] => simp [listOfBytes]

/-- Bytes that are whole words come back. -/
theorem flatMap_listOfBytes {bytes : List Byte} (whole : bytes.length % 4 = 0) :
    (listOfBytes bytes).flatMap littleEndian = bytes := by
  match bytes with
  | b0 :: b1 :: b2 :: b3 :: rest =>
    simp only [List.length_cons] at whole
    rw [listOfBytes, List.flatMap_cons, littleEndian_ofLittleEndian, flatMap_listOfBytes (by omega)]
    rfl
  | [] => rfl
  | [_] | [_, _] | [_, _, _] => cases whole

end Word

namespace Command

/-- The words that are read of a frame of the command. A full status report has more: its last sample is
whatever comes after the registers. -/
def leastWords : Command → Nat
  | config => 12
  | write | start => 1
  | statusReply | statusIrqReply => 4
  | getRegister | setRegister => 2
  | statusFullReply => 43
  | _ => 0

/-- Every legal size is that of a header and whole words. -/
theorem whole_of_frameSizes {c : Command} {bytes : Nat} (legal : headerBytes + bytes ∈ c.frameSizes) :
    bytes % 4 = 0 := by
  cases c
  all_goals
    simp only [frameSizes, headerBytes, List.mem_cons, List.not_mem_nil, or_false] at legal
    omega

/-- A legal size leaves room for the words that are read, and for no others but a last sample. -/
theorem leastWords_of_frameSizes {c : Command} {words : Nat}
    (legal : headerBytes + 4 * words ∈ c.frameSizes) :
    words = c.leastWords ∨ c = statusFullReply ∧ c.leastWords ≤ words := by
  cases c
  all_goals
    simp only [frameSizes, headerBytes, List.mem_cons, List.not_mem_nil, or_false] at legal
    simp only [leastWords, reduceCtorEq, false_and, or_false, true_and]
    omega

theorem id_injective {c c' : Command} (same : c.id = c'.id) : c = c' := by
  have found := ofId?_id c
  rw [same, ofId?_id] at found
  exact (Option.some.inj found).symm

end Command

namespace Header

theorem length_bytes (h : BitVec 16) : (bytes h).length = Command.headerBytes := rfl

theorem bytes_ofBytes (low high : Byte) : bytes (ofBytes low high) = [low, high] := by
  simp only [bytes, ofBytes, List.cons.injEq, and_true]
  refine ⟨?_, ?_⟩
  all_goals
    apply BitVec.eq_of_getLsbD_eq
    intro i inside
    simp only [BitVec.getLsbD_extractLsb', BitVec.getLsbD_append]
    grind

theorem ofBytes_bytes (h : BitVec 16) : ofBytes (h.extractLsb' 0 8) (h.extractLsb' 8 8) = h := by
  apply BitVec.eq_of_getLsbD_eq
  intro i inside
  simp only [ofBytes, BitVec.getLsbD_extractLsb', BitVec.getLsbD_append]
  grind

/-- Whatever the size, the command can be told from the header. -/
theorem id_header (c : Command) (size : Nat) : id (c.header size) = c.id := by
  have field : (c.header size).extractLsb' 10 6 = BitVec.ofNat 6 c.id := by
    apply BitVec.eq_of_getLsbD_eq
    intro i inside
    simp only [Command.header, BitVec.setWidth_eq, BitVec.getLsbD_extractLsb', BitVec.getLsbD_append]
    grind
  rw [id, field]
  cases c <;> rfl

/-- A header that passes the check is the one that is written for its command and size. -/
theorem header_of_check {h : BitVec 16} {c : Command} {size : Nat} (legal : check h = .ok (c, size)) :
    c.header size = h ∧ size ∈ c.frameSizes := by
  unfold check at legal
  split at legal
  · cases legal
  · rename_i known
    split at legal
    · rename_i fits
      cases legal
      refine ⟨?_, fits⟩
      rw [Command.header, Command.id_of_ofId? known]
      apply BitVec.eq_of_getLsbD_eq
      intro i inside
      simp only [id, Header.size, BitVec.ofNat_toNat, BitVec.setWidth_eq, BitVec.getLsbD_extractLsb',
        BitVec.getLsbD_append]
      grind
    · cases legal

end Header

namespace FullStatus

theorem registers_ofWords {words : List Word} (full : words.length = 43) (lastSample : List Word) :
    (ofWords words lastSample).registers.toList = words := by
  apply List.ext_getElem
  · rw [Vector.length_toList, full]
  · intro i inside known
    simp [ofWords, known]

theorem ofWords_registers (s : FullStatus) : ofWords s.registers.toList s.lastSample = s := by
  have registers : (ofWords s.registers.toList s.lastSample).registers = s.registers :=
    Vector.toList_inj.mp (registers_ofWords Vector.length_toList _)
  calc
    ofWords s.registers.toList s.lastSample
        = ⟨(ofWords s.registers.toList s.lastSample).registers, s.lastSample⟩ := rfl
    _ = s := by rw [registers]

end FullStatus

namespace Frame

/-- The last sample of a full status report has a time and a word for each of one or two racks. -/
def IsWhole : Frame → Prop
  | statusFullReply s => s.lastSample.length = 2 ∨ s.lastSample.length = 3
  | _ => True

variable {f g : Frame} {c : Command} {words : List Word} {bytes : List Byte}

theorem isWhole_iff : f.IsWhole ↔ Command.headerBytes + 4 * f.payload.length ∈ f.command.frameSizes := by
  cases f with
  | statusFullReply s =>
    simp only [IsWhole, payload, command, Command.frameSizes, Command.headerBytes, List.length_append,
      Vector.length_toList, List.mem_cons, List.not_mem_nil, or_false]
    omega
  | _ => simp [IsWhole, payload, command, Command.frameSizes, Command.headerBytes]

theorem ofWords?_payload (f : Frame) : ofWords? f.command f.payload = some f := by
  cases f with
  | statusFullReply s => simp [command, payload, ofWords?, FullStatus.ofWords_registers]
  | _ => rfl

theorem ofWords?_inverts (success : ofWords? c words = some f) : f.command = c ∧ f.payload = words := by
  unfold ofWords? at success
  split at success
  case h_17 =>
    split at success
    · cases success
    · rename_i enough
      cases success
      refine ⟨rfl, ?_⟩
      rw [payload, FullStatus.registers_ofWords (by rw [List.length_take]; omega), FullStatus.ofWords]
      exact List.take_append_drop 43 words
  case h_18 => cases success
  all_goals
    cases success
    exact ⟨rfl, rfl⟩

theorem ofWords?_isSome
    (all : words.length = c.leastWords ∨ c = .statusFullReply ∧ c.leastWords ≤ words.length) :
    (ofWords? c words).isSome := by
  rcases all with all | ⟨rfl, all⟩
  · cases c with
    | config => match words, all with | [_, _, _, _, _, _, _, _, _, _, _, _], _ => rfl
    | write | start => match words, all with | [_], _ => rfl
    | statusReply | statusIrqReply => match words, all with | [_, _, _, _], _ => rfl
    | getRegister | setRegister => match words, all with | [_, _], _ => rfl
    | statusFullReply => simp [ofWords?, all, Command.leastWords]
    | _ => match words, all with | [], _ => rfl
  · have enough : ¬words.length < 43 := Nat.not_lt.mpr all
    simp [ofWords?, enough]

/-- The bytes of a frame tell its command and its words, however long it is. -/
theorem encode_injective (same : f.encode = g.encode) : f = g := by
  unfold encode at same
  obtain ⟨header, payload⟩ :=
    List.append_inj same ((Header.length_bytes _).trans (Header.length_bytes _).symm)
  have command : f.command = g.command := by
    apply Command.id_injective
    simp only [Header.bytes, List.cons.injEq, and_true] at header
    rw [← Header.id_header f.command, ← Header.ofBytes_bytes (f.command.header _), header.1, header.2,
      Header.ofBytes_bytes, Header.id_header]
  have words := congrArg Word.listOfBytes payload
  rw [Word.listOfBytes_littleEndian, Word.listOfBytes_littleEndian] at words
  have read := ofWords?_payload f
  rw [command, words, ofWords?_payload g] at read
  exact (Option.some.inj read).symm

/-- What passes the checks has all the words that are read. -/
theorem decode_of_check {low high : Byte} {rest : List Byte}
    (legal : Header.check (Header.ofBytes low high) = .ok (c, Command.headerBytes + rest.length)) :
    c.leastWords ≤ (Word.listOfBytes rest).length ∧
      ∃ f, ofWords? c (Word.listOfBytes rest) = some f ∧ decode (low :: high :: rest) = .ok f := by
  obtain ⟨_, fits⟩ := Header.header_of_check legal
  have whole := Command.whole_of_frameSizes fits
  have length : rest.length = 4 * (Word.listOfBytes rest).length := by
    rw [Word.length_listOfBytes]
    omega
  rw [length] at fits
  have all := Command.leastWords_of_frameSizes fits
  obtain ⟨f, read⟩ := Option.isSome_iff_exists.mp (ofWords?_isSome all)
  refine ⟨by omega, f, read, ?_⟩
  simp only [decode, legal, bind, Except.bind, ne_eq, not_true_eq_false, ↓reduceIte, read]
  rfl

theorem decode_success (success : decode bytes = .ok f) : ∃ low high rest c,
    bytes = low :: high :: rest ∧
    Header.check (Header.ofBytes low high) = .ok (c, Command.headerBytes + rest.length) ∧
    ofWords? c (Word.listOfBytes rest) = some f := by
  unfold decode at success
  split at success
  · rename_i low high rest
    obtain ⟨⟨c, size⟩, legal, checked⟩ := bind_success success
    obtain ⟨same, returned⟩ := guard_success checked
    cases read : ofWords? c (Word.listOfBytes rest) with
    | none =>
      simp only [read] at returned
      cases returned
    | some g =>
      simp only [read] at returned
      cases returned
      rw [Decidable.not_not.mp same] at legal
      exact ⟨low, high, rest, c, rfl, legal, read⟩
  · cases success

/-- Only what `encode` writes is read, and then with a whole last sample. -/
theorem encode_of_decode (success : decode bytes = .ok f) : f.encode = bytes ∧ f.IsWhole := by
  obtain ⟨low, high, rest, c, rfl, legal, read⟩ := decode_success success
  obtain ⟨header, fits⟩ := Header.header_of_check legal
  obtain ⟨rfl, payload⟩ := ofWords?_inverts read
  have back := Word.flatMap_listOfBytes (Command.whole_of_frameSizes fits)
  have size : Command.headerBytes + 4 * f.payload.length = Command.headerBytes + rest.length := by
    rw [← Word.length_littleEndian, payload, back]
  constructor
  · rw [encode, size, header, payload, back, Header.bytes_ofBytes]
    rfl
  · rw [isWhole_iff, size]
    exact fits

theorem decode_encode_of_isWhole (whole : f.IsWhole) : decode f.encode = .ok f :=
  decode_encode_of (isWhole_iff.mp whole) (ofWords?_payload f)

/-- The header of a whole frame tells its command and how much follows. -/
theorem IsWhole.header (whole : f.IsWhole) : ∃ low high rest, f.encode = low :: high :: rest ∧
    Header.check (Header.ofBytes low high) = .ok (f.command, Command.headerBytes + rest.length) := by
  obtain ⟨low, high, rest, c, bytes, legal, read⟩ := decode_success (decode_encode_of_isWhole whole)
  exact ⟨low, high, rest, bytes, (ofWords?_inverts read).1 ▸ legal⟩

/-- A byte sequence is read as a frame only if the frame is written as it; what passes the checks of header
and length has every word that is read; and the frames that are read back are the whole ones. -/
theorem wire_format_bijective :
    (∀ bytes f, decode bytes = .ok f → f.encode = bytes) ∧
    (∀ low high rest c,
      Header.check (Header.ofBytes low high) = .ok (c, Command.headerBytes + rest.length) →
      c.leastWords ≤ (Word.listOfBytes rest).length ∧ ∃ f, decode (low :: high :: rest) = .ok f) ∧
    (∀ f : Frame, f.IsWhole → decode f.encode = .ok f) ∧
    (∀ f : Frame, ¬f.IsWhole → ∃ e, decode f.encode = .error e) := by
  refine ⟨fun bytes f success => (encode_of_decode success).1, ?_, fun f => decode_encode_of_isWhole, ?_⟩
  · intro low high rest c legal
    obtain ⟨all, f, _, success⟩ := decode_of_check legal
    exact ⟨all, f, success⟩
  · intro f short
    cases result : decode f.encode with
    | error e => exact ⟨e, rfl⟩
    | ok g =>
      obtain ⟨same, whole⟩ := encode_of_decode result
      exact absurd (encode_injective same ▸ whole) short

/-- A report with a last sample of 258 words. Its header is that of a report with two. -/
def overlongReport : Frame := statusFullReply ⟨.replicate 43 7, .replicate 258 0⟩

/-- A `start` of three cycles with its bytes, and the report whose size wraps around. -/
theorem overlongReport_refused :
    (decode [0x06, 0x20, 3, 0, 0, 0] = .ok (start 3) ∧ (start 3).encode = [0x06, 0x20, 3, 0, 0, 0]) ∧
    (Header.check (Header.ofBytes 0x06 0x20) =
        .ok (.start, Command.headerBytes + [3, 0, 0, (0 : Byte)].length) ∧
      Command.start.leastWords ≤ (Word.listOfBytes [3, 0, 0, 0]).length ∧
      ∃ f, decode [0x06, 0x20, 3, 0, 0, 0] = .ok f) ∧
    ((start 3).IsWhole ∧ decode (start 3).encode = .ok (start 3)) ∧
    (overlongReport.encode.take 2 = (Command.statusFullReply.header 182 |> Header.bytes) ∧
      ¬overlongReport.IsWhole ∧ ∃ e, decode overlongReport.encode = .error e) := by
  obtain ⟨inverse, complete, forth, refused⟩ := wire_format_bijective
  have read : decode [0x06, 0x20, 3, 0, 0, 0] = .ok (start 3) := rfl
  have legal : Header.check (Header.ofBytes 0x06 0x20) =
      .ok (.start, Command.headerBytes + [3, 0, 0, (0 : Byte)].length) := rfl
  have long : ¬overlongReport.IsWhole := by
    rw [overlongReport, IsWhole, List.length_replicate]
    omega
  exact ⟨⟨read, inverse _ _ read⟩, ⟨legal, complete _ _ _ _ legal⟩, ⟨trivial, forth _ trivial⟩,
    ⟨by decide +kernel, long, refused _ long⟩⟩

end Frame

end Sequencer
