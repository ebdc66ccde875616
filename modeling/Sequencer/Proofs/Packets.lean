import Sequencer.Proofs.BoardAnswers

/-!
Bytes reach a board in packets, and the cuts between them say nothing.

What a board cannot read yet it keeps, and of an announced stream it knows how much is still to come, so that the next
packet goes on where the last one ended. Only an illegal header, which costs all that arrived with it, and a request to
close, after which nothing more is taken, tell one packet from two.
-/
namespace Sequencer

namespace SimulatedBoard
variable {b : SimulatedBoard} {first : List Byte}

/-- A piece of a stream that is not the last one may be stored in two. -/
theorem store_append (more : first.length < b.pending) (rest : List Byte) :
    b.store first = ((b.store first).1, none) ∧ b.store (first ++ rest) = (b.store first).1.store rest := by
  rw [store_more more]
  refine ⟨rfl, ?_⟩
  unfold store
  simp only [bytesPerSample, List.append_assoc, List.length_append, Nat.sub_sub]

end SimulatedBoard

namespace SimulatedLink
variable {now : Nat} {b : SimulatedBoard} {l : SimulatedLink}

/-! ### The front of what has arrived -/

/-- Neither an illegal header nor a request to close. -/
def Front.isPlain : Front → Bool
  | .illegal => false
  | .frame (some .close) _ => false
  | _ => true

/-- What can be told from the first bytes does not change with the bytes that follow. -/
theorem Front.of_append {bytes : List Byte} (known : Front.of bytes ≠ .incomplete) (rest : List Byte) :
    Front.of (bytes ++ rest) = Front.of bytes := by
  match bytes with
  | [] | [_] => exact absurd rfl known
  | low :: high :: tail =>
    unfold Front.of at known ⊢
    dsimp only [List.cons_append] at known ⊢
    split
    · rfl
    · rename_i size legal
      rw [legal] at known
      have whole : ¬tail.length + Command.headerBytes < size := fun short => known (if_pos short)
      have whole' : ¬(tail ++ rest).length + Command.headerBytes < size := by
        rw [List.length_append]
        omega
      have enough : size ≤ (low :: high :: tail).length := by
        simp only [Command.headerBytes, List.length_cons] at whole ⊢
        omega
      have same : ((low :: high :: tail) ++ rest).take size = (low :: high :: tail).take size :=
        List.take_append_of_le_length enough
      rw [List.cons_append, List.cons_append] at same
      rw [if_neg whole, if_neg whole', same]

/-- A frame at the front has all its bytes. -/
theorem Front.more_le {first : Byte} {tail : List Byte} {request : Option Frame} {more : Nat}
    (front : Front.of (first :: tail) = .frame request more) : more ≤ tail.length := by
  match tail with
  | [] => cases front
  | high :: rest =>
    unfold Front.of at front
    dsimp only at front
    split at front
    · cases front
    · split at front
      · cases front
      · rename_i whole
        cases front
        simp only [Command.headerBytes, List.length_cons] at whole ⊢
        omega

/-! ### Reading -/

/-- What a board finds at the front while it reads, one after the other. Pieces of a stream are not looked at. -/
def fronts (now : Nat) (arrived : List Byte) (b : SimulatedBoard) : List Front :=
  match arrived with
  | [] => []
  | first :: tail =>
    if b.pending ≠ 0 then
      fronts now (tail.drop (b.pending - 1)) (b.store (first :: tail.take (b.pending - 1))).1
    else
      let front := Front.of (first :: tail)
      front :: match front with
        | .frame request more => fronts now (tail.drop more) (answer now b {} request).1
        | _ => []
termination_by arrived.length
decreasing_by all_goals simp only [List.length_cons, List.length_drop]; omega

/-- The board goes on undisturbed to the end of what has arrived. -/
def ReadsOn (now : Nat) (arrived : List Byte) (b : SimulatedBoard) : Prop :=
  ∀ front ∈ fronts now arrived b, front.isPlain

/-- What a link has ready or kept does not matter to the board. -/
theorem answer_board (now : Nat) (b : SimulatedBoard) (l l' : SimulatedLink) (request : Option Frame) :
    (answer now b l request).1 = (answer now b l' request).1 := by
  cases request <;> rfl

theorem answer_inbox (now : Nat) (b : SimulatedBoard) (l : SimulatedLink) (inbox : List Byte) (request : Option Frame) :
    answer now b { l with inbox } request =
      ((answer now b l request).1, { (answer now b l request).2 with inbox }) := by
  cases request <;> rfl

theorem answer_closed (now : Nat) (b : SimulatedBoard) (l : SimulatedLink) {request : Option Frame} {more : Nat}
    (plain : (Front.frame request more).isPlain) :
    (answer now b l request).2.closed = l.closed := by
  cases request with
  | none => rfl
  | some request =>
    have open_ : (request.command == .close) = false := by
      cases request <;> first | rfl | cases plain
    show (l.closed || request.command == .close) = l.closed
    rw [open_, Bool.or_false]

/-- Reading starts from what has arrived, whatever the link still had. -/
theorem read_inbox (now : Nat) (arrived : List Byte) (b : SimulatedBoard) (l : SimulatedLink) (inbox : List Byte) :
    read now arrived b { l with inbox } = read now arrived b l := by
  fun_induction read now arrived b l with
  | case1 => rw [read_nil]
  | case2 b l first tail awaited b' reply stored ih =>
    rw [read, if_pos awaited, stored]
    exact ih
  | case3 b l first tail idle front =>
    rw [read, if_neg idle, front]
  | case4 b l first tail idle front =>
    rw [read, if_neg idle, front]
    rfl
  | case5 b l first tail idle request more front b' l' answered ih =>
    rw [read, if_neg idle, front]
    dsimp only
    rw [answer_inbox, answered]
    exact ih

theorem read_stream {first : Byte} {tail : List Byte} (awaited : b.pending ≠ 0) :
    read now (first :: tail) b l =
      read now (tail.drop (b.pending - 1)) (b.store (first :: tail.take (b.pending - 1))).1
        (l.queue (b.store (first :: tail.take (b.pending - 1))).2) := by
  rw [read, if_pos awaited]

theorem readsOn_stream {first : Byte} {tail : List Byte} (awaited : b.pending ≠ 0) :
    ReadsOn now (first :: tail) b ↔
      ReadsOn now (tail.drop (b.pending - 1)) (b.store (first :: tail.take (b.pending - 1))).1 := by
  rw [ReadsOn, fronts, if_pos awaited, ReadsOn]

theorem readsOn_frame {first : Byte} {tail : List Byte} {request : Option Frame} {more : Nat} (idle : b.pending = 0)
    (front : Front.of (first :: tail) = .frame request more) :
    ReadsOn now (first :: tail) b ↔
      (Front.frame request more).isPlain ∧ ReadsOn now (tail.drop more) (answer now b {} request).1 := by
  rw [ReadsOn, fronts, if_neg (not_not_intro idle), front]
  exact List.forall_mem_cons

theorem not_readsOn {first : Byte} {tail : List Byte} (idle : b.pending = 0)
    (front : Front.of (first :: tail) = .illegal) : ¬ReadsOn now (first :: tail) b := by
  rw [ReadsOn, fronts, if_neg (not_not_intro idle), front]
  exact fun plain => absurd (plain _ List.mem_cons_self) Bool.false_ne_true

/-- The bytes of a stream may be read in two, as long as more of it is to come. -/
theorem read_stream_append {first : Byte} {tail : List Byte} (now : Nat) (l : SimulatedLink)
    (inside : (first :: tail).length < b.pending) (rest : List Byte) :
    read now (first :: (tail ++ rest)) b l = read now rest (b.store (first :: tail)).1 l ∧
      (ReadsOn now (first :: (tail ++ rest)) b ↔ ReadsOn now rest (b.store (first :: tail)).1) := by
  have stored := SimulatedBoard.store_more inside
  have silent : l.queue (b.store (first :: tail)).2 = l := by
    simp [stored, queue]
  have awaited : b.pending ≠ 0 := by omega
  have more : tail.length + 1 < b.pending := inside
  -- Without a next byte there is no second piece to store.
  cases rest with
  | nil =>
    have all : (tail ++ []).take (b.pending - 1) = tail := by
      rw [List.append_nil, List.take_of_length_le (by omega)]
    have none : (tail ++ []).drop (b.pending - 1) = [] := by
      rw [List.append_nil, List.drop_eq_nil_of_le (by omega)]
    rw [readsOn_stream awaited, read_stream awaited, all, none, silent]
    exact ⟨rfl, .rfl⟩
  | cons next later =>
    have before : tail.length ≤ b.pending - 1 := by omega
    have within : b.pending - 1 - tail.length = b.pending - 1 - tail.length - 1 + 1 := by omega
    have left : (b.store (first :: tail)).1.pending = b.pending - 1 - tail.length := by
      rw [stored, List.length_cons]
      dsimp only
      omega
    have awaited' : (b.store (first :: tail)).1.pending ≠ 0 := by omega
    have piece : (tail ++ next :: later).take (b.pending - 1) =
        tail ++ next :: later.take (b.pending - 1 - tail.length - 1) := by
      rw [List.take_append, List.take_of_length_le before, within, List.take_succ_cons, Nat.add_sub_cancel]
    have remainder : (tail ++ next :: later).drop (b.pending - 1) =
        later.drop (b.pending - 1 - tail.length - 1) := by
      rw [List.drop_append, List.drop_eq_nil_of_le before, within, List.drop_succ_cons, Nat.add_sub_cancel]
      rfl
    have joined := (SimulatedBoard.store_append inside
      (next :: later.take (b.pending - 1 - tail.length - 1))).2
    rw [List.cons_append] at joined
    rw [readsOn_stream awaited, readsOn_stream awaited', read_stream awaited, read_stream awaited', piece, remainder,
      left, joined]
    exact ⟨rfl, .rfl⟩

/-- After a first packet the board goes on as if the next one had come with it. -/
theorem read_append {first rest : List Byte} (on : ReadsOn now (first ++ rest) b) :
    read now (first ++ rest) b l =
        read now ((read now first b l).2.inbox ++ rest) (read now first b l).1 (read now first b l).2 ∧
      ReadsOn now ((read now first b l).2.inbox ++ rest) (read now first b l).1 ∧
      (read now first b l).2.closed = l.closed := by
  -- The induction follows the first packet. Only its last step differs with what comes behind it: there the board stops
  -- for want of bytes, in a frame or in a stream.
  fun_induction read now first b l with
  | case1 b l =>
    exact ⟨(read_inbox now rest b l []).symm, on, rfl⟩
  | case2 b l first tail awaited b' reply stored ih =>
    by_cases inside : (first :: tail).length < b.pending
    · have short : tail.length < b.pending - 1 := by
        rw [List.length_cons] at inside
        omega
      have silent := (SimulatedBoard.store_append inside rest).1
      obtain ⟨same, same_on⟩ := read_stream_append now l inside rest
      rw [List.take_of_length_le short.le, silent] at stored
      cases stored
      rw [List.drop_eq_nil_of_le short.le, read_nil]
      rw [List.cons_append] at on ⊢
      have queued : l.queue none = l := by simp [queue]
      rw [queued]
      exact ⟨same.trans (read_inbox now rest _ l []).symm, same_on.mp on, rfl⟩
    · rw [List.length_cons] at inside
      have piece : (tail ++ rest).take (b.pending - 1) = tail.take (b.pending - 1) :=
        List.take_append_of_le_length (by omega)
      have remainder : (tail ++ rest).drop (b.pending - 1) = tail.drop (b.pending - 1) ++ rest :=
        List.drop_append_of_le_length (by omega)
      rw [List.cons_append, readsOn_stream awaited, piece, remainder, stored] at on
      rw [List.cons_append, read, if_pos awaited, piece, remainder, stored]
      exact ih on
  | case3 b l first tail idle front =>
    exact ⟨(read_inbox now _ b l _).symm, on, rfl⟩
  | case4 b l first tail idle front =>
    have front' := Front.of_append (by rw [front]; simp) rest
    exact absurd on (not_readsOn (not_not.mp idle) (front'.trans front))
  | case5 b l first tail idle request more front b' l' answered ih =>
    have front' := (Front.of_append (by rw [front]; simp) rest).trans front
    have remainder : (tail ++ rest).drop more = tail.drop more ++ rest :=
      List.drop_append_of_le_length (Front.more_le front)
    rw [List.cons_append] at front'
    rw [List.cons_append, readsOn_frame (not_not.mp idle) front', remainder, answer_board now b {} l, answered] at on
    rw [List.cons_append, read, if_neg idle, front']
    dsimp only
    rw [remainder, answered]
    obtain ⟨same, on', closed⟩ := ih on.2
    have kept := answer_closed now b l on.1
    rw [answered] at kept
    exact ⟨same, on', closed.trans kept⟩

/-! ### Packets -/

/-- Sends one packet after the other, and what came of each. -/
def sendEach (now : Nat) (packets : List (List Byte)) (b : SimulatedBoard) (l : SimulatedLink) :
    List (Except LinkError Unit) × SimulatedBoard × SimulatedLink :=
  match packets with
  | [] => ([], b, l)
  | packet :: rest =>
    let (result, b, l) := send now packet b l
    let (results, b, l) := sendEach now rest b l
    (result :: results, b, l)

theorem sendEach_eq (alive : l.closed = false) (packet : List Byte) (rest : List (List Byte))
    (on : ReadsOn now (l.inbox ++ (packet :: rest).flatten) b) :
    sendEach now (packet :: rest) b l =
      (List.replicate (rest.length + 1) (.ok ()), read now (l.inbox ++ (packet :: rest).flatten) b l) := by
  induction rest generalizing packet b l with
  | nil =>
    rw [List.flatten_cons, List.flatten_nil, List.append_nil, sendEach, send_open alive]
    rfl
  | cons next rest ih =>
    rw [List.flatten_cons, ← List.append_assoc] at on ⊢
    obtain ⟨same, on', closed⟩ := read_append (l := l) on
    rw [sendEach, send_open alive]
    dsimp only
    rw [ih (closed.trans alive) next on', same]
    rfl

theorem send_closed (gone : l.closed) (bytes : List Byte) : send now bytes b l = (.error .peerClosed, b, l) :=
  if_pos gone

theorem sendEach_closed (gone : l.closed) (packets : List (List Byte)) :
    sendEach now packets b l = (List.replicate packets.length (.error .peerClosed), b, l) := by
  induction packets with
  | nil => rfl
  | cons packet rest ih =>
    rw [sendEach, send_closed gone]
    dsimp only
    rw [ih]
    rfl

/-- However the bytes are cut into packets, every packet fares as the bytes would in one, and board and link end as
after the bytes in one, if these meet no illegal header and no request to close: with the same state of the board, the
same list of requests, the same answers and the same bytes left over. An open link takes them all. -/
theorem packets_do_not_matter (packet : List Byte) (rest : List (List Byte))
    (on : ReadsOn now (l.inbox ++ (packet :: rest).flatten) b) :
    (∀ result ∈ (sendEach now (packet :: rest) b l).1, result = (send now (packet :: rest).flatten b l).1) ∧
      (sendEach now (packet :: rest) b l).2 = (send now (packet :: rest).flatten b l).2 ∧
      (l.closed = false → (send now (packet :: rest).flatten b l).1 = .ok ()) := by
  by_cases gone : l.closed
  · rw [sendEach_closed gone, send_closed gone]
    exact ⟨fun _ listed => List.eq_of_mem_replicate listed, rfl, fun alive => by simp [gone] at alive⟩
  · have alive : l.closed = false := by simpa using gone
    rw [sendEach_eq alive packet rest on, send_open alive]
    exact ⟨fun _ listed => List.eq_of_mem_replicate listed, rfl, fun _ => rfl⟩

/-- An opening, a stream of eight bytes and a question for the status, cut within a header, a frame and the stream. -/
def samplePackets : List (List Byte) :=
  [[0x10, 0x06], [0x1C, 8, 0], [], [0, 0, 1, 2, 3], [4, 5], [6, 7, 8, 0x02], [0x28]]

theorem samplePackets_taken :
    let b : SimulatedBoard := { name := "main" }
    let l : SimulatedLink := { inbox := [0x02] }
    ReadsOn 0 (l.inbox ++ samplePackets.flatten) b ∧
      (sendEach 0 samplePackets b l).2 = (send 0 samplePackets.flatten b l).2 ∧
      (sendEach 0 samplePackets b l).2.1.received = [.openBoard, .write, .status] := by
  intro b l
  have on : ReadsOn 0 (l.inbox ++ samplePackets.flatten) b := by
    unfold ReadsOn
    decide +kernel
  have same := (packets_do_not_matter _ _ on).2.1
  refine ⟨on, same, ?_⟩
  rw [samplePackets, same]
  decide +kernel

end SimulatedLink
end Sequencer
