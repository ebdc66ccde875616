import Sequencer.Link.Network
import Sequencer.Proofs.WireFormat

/-!
Frames in a row: where one ends, the next begins.

A reader knows nothing of a frame but its header. The size in the header is that of the frame, so the reader takes all
of it and nothing of what follows, and a part of a frame is not a frame.
-/
namespace Sequencer

namespace Frame
variable {f : Frame} {part : List Byte}

/-- Half a header, or a legal header with less after it than it announces. -/
theorem IsWhole.part_cases (whole : f.IsWhole) (isPart : part <+: f.encode) (proper : part ≠ f.encode) :
    part.length < Command.headerBytes ∨ ∃ low high rest size, part = low :: high :: rest ∧
      Header.check (Header.ofBytes low high) = .ok (f.command, Command.headerBytes + size) ∧
      rest.length < size := by
  obtain ⟨low, high, payload, bytes, legal⟩ := whole.header
  rw [bytes] at isPart proper
  match part with
  | [] => exact .inl (by decide)
  | [_] => exact .inl (by simp [Command.headerBytes])
  | low' :: high' :: rest =>
    obtain ⟨sameLow, afterLow⟩ := List.cons_prefix_cons.mp isPart
    obtain ⟨sameHigh, afterHigh⟩ := List.cons_prefix_cons.mp afterLow
    subst sameLow sameHigh
    refine .inr ⟨_, _, rest, payload.length, rfl, legal, ?_⟩
    refine Nat.lt_of_le_of_ne afterHigh.length_le fun all => proper ?_
    rw [afterHigh.eq_of_length all]

/-- A proper prefix of a whole frame is none. -/
theorem decode_part (whole : f.IsWhole) (isPart : part <+: f.encode) (proper : part ≠ f.encode) :
    ∃ e, decode part = .error e := by
  cases read : decode part with
  | error e => exact ⟨e, rfl⟩
  | ok g =>
    obtain ⟨low, high, rest, c, rfl, announced, _⟩ := decode_success read
    rcases whole.part_cases isPart proper with short | ⟨_, _, _, size, same, legal, short⟩
    · simp only [List.length_cons, Command.headerBytes] at short
      omega
    · cases same
      have sizes := congrArg Prod.snd (Except.ok.inj (legal.symm.trans announced))
      dsimp only at sizes
      omega

end Frame

/-- A connection that delivers what is pending on it, and only that. -/
structure Delivers {σ : Type} (answer : (c : LinkCall) → σ → c.Answer × σ) (connection : ConnectionId)
    (pending : σ → List Byte → Prop) : Prop where
  enough : ∀ {s bytes rest}, pending s (bytes ++ rest) →
    ∃ s', answer (.receive connection bytes.length) s = (.ok bytes, s') ∧ pending s' rest
  short : ∀ {s bytes count}, pending s bytes → bytes.length < count →
    ∃ e s', answer (.receive connection count) s = (.error e, s')

/-- So many frames, one after the other. -/
def readFrames (connection : ConnectionId) : Nat → Program linkInterface (List (Except LinkError Frame))
  | 0 => return []
  | count + 1 => do
    let first ← readFrame connection
    let others ← readFrames connection count
    return first :: others

section
variable {σ : Type} {answer : (c : LinkCall) → σ → c.Answer × σ} {connection : ConnectionId} {s s' s'' : σ}

/-- A legal header decides how much is read after it. -/
theorem run_readFrame {low high : Byte} {c : Command} {size : Nat} {result : Except LinkError (List Byte)}
    (header : answer (.receive connection Command.headerBytes) s = (.ok [low, high], s'))
    (legal : Header.check (Header.ofBytes low high) = .ok (c, Command.headerBytes + size))
    (remainder : answer (.receive connection size) s' = (result, s'')) :
    Program.run (I := linkInterface) answer (readFrame connection) s =
      (result.bind fun rest => Frame.decode (low :: high :: rest), s'') := by
  have checked : Header.check (Header.ofBytes ([low, high].getD 0 0) ([low, high].getD 1 0)) = _ := legal
  unfold readFrame
  refine (Program.run_ask (I := linkInterface) header _).trans ?_
  dsimp only
  rw [checked]
  dsimp only
  rw [Nat.add_sub_cancel_left]
  refine (Program.run_ask (I := linkInterface) remainder _).trans ?_
  cases result <;> rfl

end

namespace Delivers
variable {σ : Type} {answer : (c : LinkCall) → σ → c.Answer × σ} {connection : ConnectionId}
  {pending : σ → List Byte → Prop} {s : σ} {f : Frame} {rest part : List Byte}

theorem all (delivers : Delivers answer connection pending) {bytes : List Byte} (ready : pending s bytes) :
    ∃ s', answer (.receive connection bytes.length) s = (.ok bytes, s') := by
  have ready : pending s (bytes ++ []) := by rwa [List.append_nil]
  obtain ⟨s', taken, _⟩ := delivers.enough ready
  exact ⟨s', taken⟩

/-- What is pending can be told from what is delivered. -/
theorem unique (delivers : Delivers answer connection pending) {one two : List Byte} (first : pending s one)
    (second : pending s two) : one = two := by
  have upTo {one two : List Byte} (first : pending s one) (second : pending s two) : two.length ≤ one.length := by
    refine Nat.le_of_not_lt fun more => ?_
    obtain ⟨e, _, late⟩ := delivers.short first more
    obtain ⟨_, taken⟩ := delivers.all second
    cases late.symm.trans taken
  have length : one.length = two.length := Nat.le_antisymm (upTo second first) (upTo first second)
  obtain ⟨_, one_taken⟩ := delivers.all first
  obtain ⟨_, two_taken⟩ := delivers.all second
  rw [length] at one_taken
  exact Except.ok.inj (congrArg Prod.fst (one_taken.symm.trans two_taken))

/-- The bytes of a frame are read, and no others. -/
theorem readFrame (delivers : Delivers answer connection pending) (whole : f.IsWhole)
    (ready : pending s (f.encode ++ rest)) :
    ∃ s', Program.run (I := linkInterface) answer (readFrame connection) s = (.ok f, s') ∧ pending s' rest := by
  obtain ⟨low, high, payload, bytes, legal⟩ := whole.header
  have ready : pending s ([low, high] ++ (payload ++ rest)) := by
    rwa [← List.append_assoc, List.cons_append, List.singleton_append, ← bytes]
  obtain ⟨s₁, header, ready⟩ := delivers.enough ready
  obtain ⟨s₂, remainder, ready⟩ := delivers.enough ready
  have read : Frame.decode (low :: high :: payload) = .ok f := bytes ▸ Frame.decode_encode_of_isWhole whole
  exact ⟨s₂, (run_readFrame header legal remainder).trans (congrArg (·, s₂) read), ready⟩

/-- Of a part of a frame no frame is read. -/
theorem readFrame_part (delivers : Delivers answer connection pending) (whole : f.IsWhole)
    (isPart : part <+: f.encode) (proper : part ≠ f.encode) (ready : pending s part) :
    ∃ e s', Program.run (I := linkInterface) answer (Sequencer.readFrame connection) s = (.error e, s') := by
  rcases whole.part_cases isPart proper with short | ⟨low, high, rest, size, rfl, legal, short⟩
  · obtain ⟨e, s', late⟩ := delivers.short ready short
    exact ⟨e, s', Program.run_ask (I := linkInterface) late _⟩
  · have ready : pending s ([low, high] ++ rest) := ready
    obtain ⟨s₁, header, ready⟩ := delivers.enough ready
    obtain ⟨e, s', late⟩ := delivers.short ready short
    exact ⟨e, s', run_readFrame header legal late⟩

/-- Frame by frame, each read from where the one before ended. -/
theorem readFrames (delivers : Delivers answer connection pending) {fs : List Frame} (whole : ∀ f ∈ fs, f.IsWhole)
    (ready : pending s (fs.flatMap Frame.encode ++ rest)) :
    ∃ s', Program.run (I := linkInterface) answer (Sequencer.readFrames connection fs.length) s =
      (fs.map .ok, s') ∧ pending s' rest := by
  induction fs generalizing s with
  | nil => exact ⟨s, rfl, ready⟩
  | cons f fs ih =>
    rw [List.forall_mem_cons] at whole
    rw [List.flatMap_cons, List.append_assoc] at ready
    obtain ⟨s₁, first, ready⟩ := delivers.readFrame whole.1 ready
    obtain ⟨s₂, others, ready⟩ := ih whole.2 ready
    refine ⟨s₂, ?_, ready⟩
    have one := Program.run_bind (I := linkInterface) answer (Sequencer.readFrame connection)
      (fun first => Sequencer.readFrames connection fs.length >>= fun others => return first :: others) s
    have more := Program.run_bind (I := linkInterface) answer (Sequencer.readFrames connection fs.length)
      (fun others => return .ok f :: others) s₁
    rw [first] at one
    rw [others] at more
    exact one.trans more

end Delivers

/-- The answers of a scripted peer that were not read yet. -/
def Network.HasUnread (n : Network) (connection : ConnectionId) (bytes : List Byte) : Prop :=
  ∃ script : Script, n.endpoints[connection]? = some (.scripted script) ∧ script.unread = bytes

theorem Network.delivers_unread (connection : ConnectionId) :
    Delivers Network.answer connection (·.HasUnread connection) where
  enough := by
    rintro n bytes rest ⟨script, here, unread⟩
    have some : ¬script.unread.length < bytes.length := by
      rw [unread, List.length_append]
      omega
    have taken := receive_scripted here bytes.length
    rw [if_neg some, unread, List.take_left, List.drop_left] at taken
    exact ⟨_, taken, _, getElem?_replaced here _, rfl⟩
  short := by
    rintro n bytes count ⟨script, here, rfl⟩ more
    have late := receive_scripted here count
    rw [if_pos more] at late
    exact ⟨_, _, late⟩

/-- Over a connection that delivers their bytes, whole frames are read one by one as they are, and what follows the
last one is left. No proper prefix of a whole frame is one. -/
theorem frames_are_self_delimiting {σ : Type} {answer : (c : LinkCall) → σ → c.Answer × σ}
    {connection : ConnectionId} {pending : σ → List Byte → Prop} (delivers : Delivers answer connection pending) :
    (∀ (fs : List Frame) (rest : List Byte) (s : σ), (∀ f ∈ fs, f.IsWhole) →
      pending s (fs.flatMap Frame.encode ++ rest) →
      ∃ s', Program.run (I := linkInterface) answer (readFrames connection fs.length) s = (fs.map .ok, s') ∧
        ∀ left, pending s' left ↔ left = rest) ∧
    ∀ (f : Frame) (part : List Byte), f.IsWhole → part <+: f.encode → part ≠ f.encode →
      (∃ e, Frame.decode part = .error e) ∧
      ∀ s, pending s part →
        ∃ e s', Program.run (I := linkInterface) answer (readFrame connection) s = (.error e, s') := by
  constructor
  · intro fs rest s whole ready
    obtain ⟨s', read, ready⟩ := delivers.readFrames whole ready
    refine ⟨s', read, fun left => ⟨fun other => delivers.unique other ready, ?_⟩⟩
    rintro rfl
    exact ready
  · intro f part whole isPart proper
    exact ⟨Frame.decode_part whole isPart proper, fun s => delivers.readFrame_part whole isPart proper⟩

/-- A peer that answers with two frames and the first byte of a third. -/
theorem two_frames_and_a_byte_read :
    let n : Network :=
      ⟨{ name := "main" }, #[.scripted { unread := [0x02, 0x04, 0x06, 0x20, 3, 0, 0, 0, 0x06] }], [], [], 0⟩
    (∃ n', Program.run (I := linkInterface) Network.answer (readFrames 0 2) n = ([.ok .ack, .ok (.start 3)], n') ∧
      ∀ left, n'.HasUnread 0 left ↔ left = [0x06]) ∧
    ∃ e, Frame.decode [0x06, 0x20, 3, 0, 0] = .error e := by
  intro n
  obtain ⟨reads, refuses⟩ := frames_are_self_delimiting (Network.delivers_unread 0)
  refine ⟨reads [.ack, .start 3] [0x06] n ?_ ⟨_, rfl, rfl⟩, (refuses (.start 3) _ trivial ?_ ?_).1⟩
  · simp [Frame.IsWhole]
  · exact ⟨[0], rfl⟩
  · decide

end Sequencer
