import Sequencer.Proofs.BoardTalk
import Sequencer.Proofs.Packets

/-!
Connections to a simulated board that come and go.

What a dropped connection had of a frame is gone with it. An announced stream is not: the board waits for the rest of
it, and takes it from whatever connection brings bytes next. So a fresh connection is served if no stream is owed, and
only then.
-/
namespace Sequencer

namespace SimulatedBoard
variable {b : SimulatedBoard} {now : Nat} {request : Frame} {refused : List Command}

/-! ### What a board waits for -/

/-- The last request announced the stream whose rest is still to come; it is of whole samples. -/
structure Owed (b : SimulatedBoard) : Prop where
  announced : b.received.getLast? = some .write
  unplayed : b.times = #[]
  samples : b.bytesPerSample ∣ b.data.length + b.pending
  range : b.data.length + b.pending < 2 ^ 32

/-- The board answers every request, refuses some, and waits for nothing but an announced stream. -/
structure Answering (refused : List Command) (b : SimulatedBoard) : Prop where
  ignores : b.ignores = []
  refuses : b.refuses = refused
  owed : b.pending ≠ 0 → b.Owed

/-- What a board was built with, and what it has logged. -/
structure SameManners (b b' : SimulatedBoard) : Prop where
  received : b'.received = b.received
  ignores : b'.ignores = b.ignores
  refuses : b'.refuses = b.refuses

theorem perform_manners (b : SimulatedBoard) (now : Nat) (request : Frame) :
    b.SameManners (b.perform now request).1 := by
  cases request with
  | write count | start cycles | stop | getRegister r | setRegister r =>
    dsimp only [perform]
    split <;> exact ⟨rfl, rfl, rfl⟩
  | _ => exact ⟨rfl, rfl, rfl⟩

theorem store_manners (b : SimulatedBoard) (piece : List Byte) : b.SameManners (b.store piece).1 := by
  unfold store
  dsimp only
  split <;> exact ⟨rfl, rfl, rfl⟩

/-- The request is logged whether it is answered or not. -/
theorem handle_manners (b : SimulatedBoard) (now : Nat) (request : Frame) :
    (b.note request.command).SameManners (b.handle now request).1 := by
  unfold handle
  dsimp only
  split
  · exact ⟨rfl, rfl, rfl⟩
  · split
    · exact ⟨rfl, rfl, rfl⟩
    · exact (b.note request.command).perform_manners now request

theorem perform_owed (idle : b.pending = 0) (announced : request.command = .write → b.received.getLast? = some .write)
    (awaited : (b.perform now request).1.pending ≠ 0) : (b.perform now request).1.Owed := by
  by_cases write : request.command = .write
  · cases request with
    | write count =>
      dsimp only [perform] at awaited ⊢
      split at awaited
      · exact absurd idle awaited
      · rename_i legal
        rw [if_neg legal]
        obtain ⟨_, whole⟩ := not_or.mp legal
        refine ⟨announced rfl, rfl, ?_, ?_⟩
        · rw [List.length_nil, Nat.zero_add]
          exact Nat.dvd_of_mod_eq_zero (not_not.mp whole)
        · rw [List.length_nil, Nat.zero_add]
          exact count.isLt
    | _ => cases write
  · refine absurd ?_ awaited
    by_cases reset : request.command = .reset
    · cases request with
      | reset => rfl
      | _ => cases reset
    · exact (b.perform_keeps now reset write).pending.trans idle

/-- A board that ignores nothing refuses a request or performs it. -/
theorem Answering.handle_cases (answering : b.Answering refused) (now : Nat) (request : Frame) :
    b.handle now request = (b.note request.command, some .nack) ∨
      b.handle now request = (((b.note request.command).perform now request).1,
        some ((b.note request.command).perform now request).2) := by
  have heard : request.command ∉ b.ignores := answering.ignores ▸ List.not_mem_nil
  by_cases granted : request.command ∈ b.refuses
  · exact .inl ((if_neg heard).trans (if_pos granted))
  · exact .inr (handle_granted heard granted now)

theorem Answering.answer (answering : b.Answering refused) (now : Nat) (request : Frame) : ∃ answer,
    (b.handle now request).2 = some answer ∧ (answer.command = request.reply ∨ answer = .nack) := by
  rcases answering.handle_cases now request with noted | performed
  · exact ⟨.nack, congrArg Prod.snd noted, .inr rfl⟩
  · exact ⟨_, congrArg Prod.snd performed, (b.note request.command).perform_reply now request⟩

theorem Answering.handle (answering : b.Answering refused) (idle : b.pending = 0) (now : Nat) (request : Frame) :
    (b.handle now request).1.Answering refused := by
  have manners := b.handle_manners now request
  refine ⟨manners.ignores.trans answering.ignores, manners.refuses.trans answering.refuses, fun awaited => ?_⟩
  rcases answering.handle_cases now request with noted | performed
  · rw [noted] at awaited
    exact absurd idle awaited
  · rw [performed] at awaited ⊢
    refine perform_owed idle (fun write => ?_) awaited
    rw [note, write]
    exact List.getLast?_concat

theorem Answering.store (answering : b.Answering refused) {piece : List Byte} (fits : piece.length ≤ b.pending)
    (awaited : b.pending ≠ 0) : (b.store piece).1.Answering refused := by
  rcases fits.eq_or_lt with last | more
  · rw [store_last last]
    exact ⟨answering.ignores, answering.refuses, fun awaited => absurd rfl awaited⟩
  · rw [store_more more]
    obtain ⟨announced, unplayed, samples, range⟩ := answering.owed awaited
    have length : (b.data ++ piece).length + (b.pending - piece.length) = b.data.length + b.pending := by
      rw [List.length_append]
      omega
    refine ⟨answering.ignores, answering.refuses, fun _ => ⟨announced, unplayed, ?_, ?_⟩⟩
    · rw [length]
      exact samples
    · rw [length]
      exact range

end SimulatedBoard

namespace SimulatedLink
variable {b : SimulatedBoard} {l : SimulatedLink} {now : Nat} {request : Frame} {refused : List Command}

/-- Whatever arrives. -/
theorem read_answering (answering : b.Answering refused) (now : Nat) (arrived : List Byte) (l : SimulatedLink) :
    (read now arrived b l).1.Answering refused := by
  fun_induction read now arrived b l with
  | case1 => exact answering
  | case2 b l first tail awaited b' reply stored ih =>
    refine ih ?_
    have fits : (first :: tail.take (b.pending - 1)).length ≤ b.pending := by
      rw [List.length_cons, List.length_take]
      omega
    have kept := answering.store fits awaited
    rwa [stored] at kept
  | case3 | case4 => exact answering
  | case5 b l first tail idle request more front b' l' answered ih =>
    refine ih ?_
    cases request with
    | none =>
      cases answered
      exact answering
    | some request =>
      have kept := answering.handle (not_not.mp idle) now request
      cases answered
      exact kept

/-- A request that is not yet whole is kept. -/
theorem read_part (idle : b.pending = 0) (whole : request.IsWhole) {part rest : List Byte}
    (bytes : part ++ rest = request.encode) (more : rest ≠ []) :
    read now part b l = (b, { l with inbox := part }) := by
  obtain ⟨first, tail, encoded, front⟩ := Front.of_encode whole
  rw [encoded] at bytes
  cases part with
  | nil => exact read_nil now b l
  | cons first' part =>
    have short : part.length < tail.length := by
      have total := congrArg List.length bytes
      have some := List.length_pos_of_ne_nil more
      rw [List.length_append, List.length_cons, List.length_cons] at total
      omega
    have unknown : Front.of (first' :: part) = .incomplete := by
      by_contra known
      have front' := Front.of_append known rest
      rw [bytes, front] at front'
      exact absurd (Front.more_le front'.symm) short.not_ge
    rw [read, if_neg (not_not_intro idle), unknown]

theorem read_byte (byte : Byte) : (read now [byte] b l).1.received = b.received := by
  rw [read]
  split
  · dsimp only
    rw [List.drop_nil, read_nil, (SimulatedBoard.store_manners _ _).received]
  · rfl

/-- What a board awaits, and no more than a byte on top of it, is no request. -/
theorem read_owed (awaited : b.pending ≠ 0) {arrived : List Byte} (short : arrived.length ≤ b.pending + 1) :
    (read now arrived b l).1.received = b.received := by
  cases arrived with
  | nil => rw [read_nil]
  | cons first tail =>
    rw [List.length_cons] at short
    rw [read_stream awaited]
    have left : (tail.drop (b.pending - 1)).length ≤ 1 := by
      rw [List.length_drop]
      omega
    match tail.drop (b.pending - 1), left with
    | [], _ => rw [read_nil, (SimulatedBoard.store_manners _ _).received]
    | [byte], _ => rw [read_byte, (SimulatedBoard.store_manners _ _).received]

end SimulatedLink

/-! ### Histories -/

namespace Network
variable {n : Network} {refused : List Command}

/-- New connections are to a board that answers. -/
structure Live (refused : List Command) (n : Network) : Prop where
  upcoming : n.upcoming = []
  answering : n.board.Answering refused

theorem Live.dial (live : n.Live refused) :
    n.dial = (.ok n.endpoints.size, { n with endpoints := n.endpoints.push (.simulated {}) }) := by
  unfold Network.dial
  split
  · rfl
  all_goals
    rename_i there
    cases live.upcoming.symm.trans there

theorem Live.answer (live : n.Live refused) (call : LinkCall) : (answer call n).2.Live refused := by
  obtain ⟨upcoming, answering⟩ := live
  cases call with
  | send connection bytes =>
    change (n.send connection bytes).2.Live refused
    cases there : n.endpoints[connection]? with
    | none =>
      unfold Network.send
      rw [there]
      exact ⟨upcoming, answering⟩
    | some endpoint =>
      cases endpoint with
      | simulated link =>
        rw [send_simulated there]
        refine ⟨upcoming, ?_⟩
        unfold SimulatedLink.send
        split
        · exact answering
        · exact SimulatedLink.read_answering answering _ _ _
      | scripted script =>
        unfold Network.send
        rw [there]
        dsimp only
        split <;> exact ⟨upcoming, answering⟩
  | receive connection count =>
    change (n.receive connection count).2.Live refused
    unfold Network.receive
    split
    · exact ⟨upcoming, answering⟩
    · exact ⟨upcoming, answering⟩
    · split <;> exact ⟨upcoming, answering⟩
  | shutdown connection =>
    change (n.shutdown connection).Live refused
    unfold Network.shutdown
    split <;> exact ⟨upcoming, answering⟩

end Network

/-- What can happen on a network. -/
inductive LinkEvent where
  /-- A new connection. -/
  | dial
  | call (c : LinkCall)

namespace Timed
variable {s : Timed} {k : ConnectionId} {b : SimulatedBoard} {l : SimulatedLink} {request : Frame}
  {refused : List Command}

def happen (s : Timed) : LinkEvent → Timed
  | .dial => { s with network := s.network.dial.2 }
  | .call c => (answer c s).2

/-- The network after one event after the other. -/
def after (s : Timed) (history : List LinkEvent) : Timed := history.foldl happen s

/-- A board with its first connection. -/
def ofBoard (b : SimulatedBoard) (clock : Nat → Nat) : Timed := ⟨{ board := b, endpoints := #[.simulated {}] }, clock⟩

def sends (k : ConnectionId) (packets : List (List Byte)) : List LinkEvent :=
  packets.map fun packet => .call (.send k packet)

/-- The number of the next connection. -/
def fresh (s : Timed) : ConnectionId := s.network.endpoints.size

/-- The network after a new connection and the first packets on it. -/
def reconnected (s : Timed) (packets : List (List Byte)) : Timed := s.after (.dial :: sends s.fresh packets)

theorem happen_live (live : s.network.Live refused) (event : LinkEvent) : (s.happen event).network.Live refused := by
  cases event with
  | dial =>
    rw [happen, live.dial]
    exact ⟨live.upcoming, live.answering⟩
  | call c =>
    have now : s.current.Live refused := ⟨live.upcoming, live.answering⟩
    exact now.answer c

theorem after_live (live : s.network.Live refused) (history : List LinkEvent) :
    (s.after history).network.Live refused := by
  induction history generalizing s with
  | nil => exact live
  | cons event rest ih => exact ih (happen_live live event)

/-! ### Fresh connections -/

theorem has_fresh (live : s.network.Live refused) : (s.happen .dial).Has s.fresh s.network.board {} := by
  rw [happen, live.dial]
  exact ⟨rfl, Array.getElem?_push_size⟩

theorem Has.happen_send (has : s.Has k b l) (alive : l.closed = false) (bytes : List Byte) : ∃ now,
    (s.happen (.call (.send k bytes))).Has k (l.read now (l.inbox ++ bytes) b).1
      (l.read now (l.inbox ++ bytes) b).2 := by
  obtain ⟨s', sent, has'⟩ := has.send bytes
  rw [SimulatedLink.send_open alive] at has'
  rw [happen, sent]
  exact ⟨s.clock 0, has'⟩

/-- Cut in any way, a request is handled when its last bytes come in. -/
theorem Has.sends_request {before last : List Byte} {packets : List (List Byte)}
    (has : s.Has k b { inbox := before }) (idle : b.pending = 0) (whole : request.IsWhole) (some : last ≠ [])
    (bytes : before ++ (packets ++ [last]).flatten = request.encode) : ∃ now,
    (s.after (sends k (packets ++ [last]))).Has k (b.handle now request).1
      { outbox := ((b.handle now request).2.map Frame.encode).getD [], closed := request.command == .close } := by
  -- What has come so far is in the inbox, and the board has not moved.
  induction packets generalizing s before with
  | nil =>
    rw [List.nil_append, List.flatten_singleton] at bytes
    obtain ⟨now, has'⟩ := has.happen_send rfl last
    rw [bytes, SimulatedLink.read_request idle whole] at has'
    exact ⟨now, has'⟩
  | cons packet rest ih =>
    rw [List.cons_append, List.flatten_cons, ← List.append_assoc] at bytes
    have more : (rest ++ [last]).flatten ≠ [] := by
      rw [List.flatten_append, List.flatten_singleton]
      exact List.append_ne_nil_of_right_ne_nil _ some
    obtain ⟨now, has'⟩ := has.happen_send rfl packet
    rw [SimulatedLink.read_part idle whole bytes more] at has'
    exact ih has' bytes

/-- The request is logged and answered on a fresh connection, however it is cut into packets. The answer is what the
board makes of the request when it is whole. -/
def Serves (s : Timed) (request : Frame) : Prop :=
  ∀ packets last, last ≠ [] → (packets ++ [last]).flatten = request.encode → ∃ now answer,
    (s.network.board.handle now request).2 = some answer ∧
    (answer.command = request.reply ∨ answer = .nack) ∧
    (s.reconnected (packets ++ [last])).Has s.fresh (s.network.board.handle now request).1
      { outbox := answer.encode, closed := request.command == .close } ∧
    (s.reconnected (packets ++ [last])).network.board.received = s.network.board.received ++ [request.command]

theorem serves_of_idle (live : s.network.Live refused) (idle : s.network.board.pending = 0) (whole : request.IsWhole) :
    s.Serves request := by
  intro packets last some bytes
  obtain ⟨now, has⟩ := (has_fresh live).sends_request idle whole some bytes
  obtain ⟨answer, answered, suits⟩ := live.answering.answer now request
  rw [answered] at has
  refine ⟨now, answer, answered, suits, has, ?_⟩
  rw [reconnected, after, List.foldl_cons]
  exact has.board ▸ (SimulatedBoard.handle_manners _ now request).received

/-- What comes over a fresh connection while a stream is owed is more of the stream. -/
theorem has_owed (live : s.network.Live refused) {bytes : List Byte} (some : bytes ≠ [])
    (fits : bytes.length ≤ s.network.board.pending) :
    (s.reconnected [bytes]).Has s.fresh (s.network.board.store bytes).1
      { outbox := ((s.network.board.store bytes).2.map Frame.encode).getD [] } := by
  obtain ⟨now, has⟩ := (has_fresh live).happen_send rfl bytes
  rw [List.nil_append, SimulatedLink.read_piece some fits] at has
  exact has

/-- A request of a header only is lost on a board that awaits so much as a byte. -/
theorem not_serves (live : s.network.Live refused) (awaited : s.network.board.pending ≠ 0) : ¬s.Serves .openBoard := by
  intro serves
  obtain ⟨_, _, _, _, _, received⟩ := serves [] Frame.openBoard.encode (List.cons_ne_nil _ _) rfl
  obtain ⟨now, has⟩ := (has_fresh live).happen_send rfl Frame.openBoard.encode
  have short : Frame.openBoard.encode.length ≤ s.network.board.pending + 1 := by
    have length : Frame.openBoard.encode.length = 2 := rfl
    omega
  have same : (s.reconnected [Frame.openBoard.encode]).network.board.received = s.network.board.received :=
    (congrArg SimulatedBoard.received has.board).trans (SimulatedLink.read_owed awaited short)
  rw [List.nil_append, same] at received
  simp at received

end Timed

/-! ### Clients that come back -/

namespace Client

/-- What a client does on a new connection before it configures the board. -/
def rejoin (k : ConnectionId) : LinkM Unit := do
  attach k
  openBoard
  reset

/-- The client over a new connection. -/
def moved (c : Client) (k : ConnectionId) (state : LinkState) : Client :=
  { c with connection := some k, state, applied := none }

end Client

/-- The board after an opening and a reset. -/
def SimulatedBoard.rejoined (b : SimulatedBoard) : SimulatedBoard :=
  ({ b.note .openBoard with isOpen := true }.note .reset).reset

namespace Timed
variable {s : Timed} {k : ConnectionId} {b : SimulatedBoard} {l : SimulatedLink} {c : Client}

theorem Has.shutdown (has : s.Has k b l) {old : ConnectionId} (apart : old ≠ k) :
    (answer (.shutdown old) s).2.Has k b l := by
  obtain ⟨board, link⟩ := has
  change Has ⟨s.current.shutdown old, _⟩ k b l
  unfold Network.shutdown
  split
  · exact ⟨board, link⟩
  · exact ⟨board, (Array.getElem?_setIfInBounds_ne apart).trans link⟩
  · exact ⟨board, link⟩

/-- A client leaves its connection for another one. -/
theorem Has.attach (has : s.Has k b l) (other : c.connection ≠ some k) : ∃ s',
    (Client.attach k).runOn answer c s = (.ok (), c.moved k .connected, s') ∧ s'.Has k b l := by
  unfold Client.attach Client.dropConnection
  cases linked : c.connection with
  | none =>
    refine ⟨s, ?_, has⟩
    rw [LinkM.runOn_bind, LinkM.runOn_get, linked]
    rfl
  | some old =>
    have apart : old ≠ k := fun same => other (linked.trans (congrArg some same))
    refine ⟨(answer (.shutdown old) s).2, ?_, has.shutdown apart⟩
    rw [LinkM.runOn_bind, LinkM.runOn_get, linked]
    rfl

/-- A client that comes back to an idle board finds it open and as new. -/
theorem Has.rejoin (has : s.Has k b {}) (idle : b.pending = 0) (ignores : b.ignores = [])
    (opens : .openBoard ∉ b.refuses) (resets : .reset ∉ b.refuses) (other : c.connection ≠ some k) : ∃ s',
    (Client.rejoin k).runOn answer c s = (.ok (), c.moved k .opened, s') ∧ s'.Has k b.rejoined {} := by
  have heard (command : Command) : command ∉ b.ignores := ignores ▸ List.not_mem_nil
  obtain ⟨s₁, attached, has₁⟩ := has.attach other
  obtain ⟨s₂, _, asked, has₂⟩ := has₁.ask (c := c.moved k .connected) rfl idle .openBoard (heard _) opens trivial
    (by decide)
  have opened : Client.openBoard.runOn answer (c.moved k .connected) s₁ = (.ok (), c.moved k .opened, s₂) :=
    (LinkM.runOn_bind_ok (runOn_require (by simp [Client.moved]) (by simp [Client.moved, Client.anyConnected]) _)).trans
      ((LinkM.runOn_bind_ok asked).trans rfl)
  obtain ⟨s₃, _, asked', has₃⟩ := has₂.ask (c := c.moved k .opened) rfl idle .reset (heard _) resets trivial
    (by decide)
  have reset_ : Client.reset.runOn answer (c.moved k .opened) s₂ = (.ok (), c.moved k .opened, s₃) :=
    (LinkM.runOn_bind_ok (runOn_require (by simp [Client.moved]) (by simp [Client.moved, Client.anyConnected]) _)).trans
      ((LinkM.runOn_bind_ok asked').trans rfl)
  exact ⟨s₃, (LinkM.runOn_bind_ok attached).trans ((LinkM.runOn_bind_ok opened).trans reset_), has₃⟩

/--
A simulated board after any history of connections, packets, receptions and shutdowns, at any times. Requests on a fresh
connection are served if and only if no stream is owed; a stream that is owed was announced by the last request. What
comes over a fresh connection is then stored as more of the stream, without an answer until the stream is whole. A
client that comes back to a board that owes nothing can open and reset it, unless the board refuses that.
-/
theorem served_unless_stream_owed {b : SimulatedBoard} (answers : b.ignores = []) (idle : b.pending = 0)
    (clock : Nat → Nat) (history : List LinkEvent) :
    let s := (ofBoard b clock).after history
    let board := s.network.board
    ((∀ request : Frame, request.IsWhole → s.Serves request) ↔ board.pending = 0) ∧
    (board.pending ≠ 0 → board.Owed) ∧
    (∀ bytes, bytes ≠ [] → bytes.length < board.pending → (s.reconnected [bytes]).Has s.fresh
      { board with data := board.data ++ bytes, pending := board.pending - bytes.length } {}) ∧
    (∀ bytes, bytes ≠ [] → bytes.length = board.pending → (s.reconnected [bytes]).Has s.fresh
      (board.loaded bytes) { outbox := Frame.ack.encode }) ∧
    (board.pending = 0 → .openBoard ∉ b.refuses → .reset ∉ b.refuses →
      ∀ c : Client, c.connection ≠ some s.fresh → ∃ s',
        (Client.rejoin s.fresh).runOn answer c (s.happen .dial) = (.ok (), c.moved s.fresh .opened, s') ∧
        s'.Has s.fresh board.rejoined {}) := by
  intro s board
  have first : (ofBoard b clock).network.Live b.refuses := ⟨rfl, answers, rfl, fun awaited => absurd idle awaited⟩
  have live : s.network.Live b.refuses := after_live first history
  refine ⟨⟨fun serves => ?_, fun idle request => serves_of_idle live idle⟩, live.answering.owed,
    fun bytes some more => ?_, fun bytes some last => ?_, fun idle opens resets c other => ?_⟩
  · by_contra awaited
    exact not_serves live awaited (serves .openBoard trivial)
  · have has := has_owed live some more.le
    rw [SimulatedBoard.store_more more] at has
    exact has
  · have has := has_owed live some last.le
    rw [SimulatedBoard.store_last last] at has
    exact has
  · refine (has_fresh live).rejoin idle live.answering.ignores ?_ ?_ other
    · rwa [live.answering.refuses]
    · rwa [live.answering.refuses]

/-- A board is opened, a stream of eight bytes announced, and the connection lost after three of them. -/
def droppedStream : List LinkEvent :=
  [.call (.send 0 Frame.openBoard.encode), .call (.send 0 (Frame.write 8).encode), .call (.send 0 [1, 2, 3]),
    .call (.shutdown 0)]

/-- The other five bytes come over a second connection, in two packets. -/
theorem droppedStream_completed :
    let b : SimulatedBoard := { name := "main", refuses := [.start] }
    let s := (ofBoard b fun later => 1000 * later).after (droppedStream ++ .dial :: sends 1 [[4, 5], [6, 7, 8]])
    let c : Client := { name := "main", connection := some 0 }
    b.ignores = [] ∧ b.pending = 0 ∧ s.network.board.pending = 0 ∧ c.connection ≠ some s.fresh ∧
      (∀ request : Frame, request.IsWhole → s.Serves request) ∧
      ∃ s', (Client.rejoin s.fresh).runOn answer c (s.happen .dial) = (.ok (), c.moved s.fresh .opened, s') := by
  intro b s c
  have idle : s.network.board.pending = 0 := by decide +kernel
  have other : c.connection ≠ some s.fresh := by decide +kernel
  have all := served_unless_stream_owed (b := b) rfl rfl (fun later => 1000 * later)
    (droppedStream ++ .dial :: sends 1 [[4, 5], [6, 7, 8]])
  -- The name keeps the history from being run when the two are compared.
  have same : (ofBoard b fun later => 1000 * later).after (droppedStream ++ .dial :: sends 1 [[4, 5], [6, 7, 8]]) = s :=
    rfl
  rw [same] at all
  obtain ⟨served, _, _, _, rejoins⟩ := all
  obtain ⟨s', ran, _⟩ := rejoins idle (by decide) (by decide) c other
  exact ⟨rfl, rfl, idle, other, served.mpr idle, s', ran⟩

/-- An opening on a fresh connection is lost, and a client that comes back is left without an answer. -/
theorem droppedStream_unserved :
    let s := (ofBoard { name := "main" } fun later => 1000 * later).after droppedStream
    (¬ ∀ request : Frame, request.IsWhole → s.Serves request) ∧
      ((Client.rejoin 1).runOn answer { name := "main" } (s.happen .dial)).1 =
        .error (.timeout "waiting for simulated board main") := by
  intro s
  refine ⟨fun claim => ?_, ?_⟩
  · obtain ⟨_, _, _, _, _, received⟩ := claim .openBoard trivial [] Frame.openBoard.encode (List.cons_ne_nil _ _) rfl
    revert received
    decide +kernel
  · decide +kernel

end Timed
end Sequencer
