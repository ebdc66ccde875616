import Sequencer.Proofs.BoardAnswers
import Sequencer.Proofs.Chunks
import Sequencer.Proofs.FrameStream

/-!
A client's requests over an idle connection to a healthy simulated board.

The runs are on a network with a clock, so that time may go by as it likes between any two calls.
-/
namespace Sequencer

namespace LinkM
variable {α β σ : Type} {answer : (c : LinkCall) → σ → c.Answer × σ} {p : LinkM α} {f : α → LinkM β}
  {c c' : Client} {s s' : σ} {a : α} {e : LinkError}

theorem runOn_bind : (p >>= f).runOn answer c s = match p.runOn answer c s with
    | (.ok a, c, s) => (f a).runOn answer c s
    | (.error e, c, s) => (.error e, c, s) := by
  have split := Program.run_bind (I := linkInterface) answer (p.run.run c)
    (fun out => ExceptT.bindCont f out.1 out.2) s
  refine (congrArg (fun out => (out.1.1, out.1.2, out.2)) split).trans ?_
  unfold runOn
  obtain ⟨⟨result, c'⟩, s'⟩ := Program.run (I := linkInterface) answer (p.run.run c) s
  cases result <;> rfl

theorem runOn_bind_ok (first : p.runOn answer c s = (.ok a, c', s')) :
    (p >>= f).runOn answer c s = (f a).runOn answer c' s' := by
  rw [runOn_bind, first]

theorem runOn_bind_error (first : p.runOn answer c s = (.error e, c', s')) :
    (p >>= f).runOn answer c s = (.error e, c', s') := by
  rw [runOn_bind, first]

theorem runOn_get {f : Client → LinkM β} : (get >>= f).runOn answer c s = (f c).runOn answer c s := rfl

theorem runOn_lift {p : Program linkInterface α} : runOn answer (ExceptT.lift (StateT.lift p)) c s =
    (.ok (Program.run (I := linkInterface) answer p s).1, c,
      (Program.run (I := linkInterface) answer p s).2) := by
  induction p generalizing s with
  | done a => rfl
  | call request next ih => exact ih (answer request s).1

theorem runOn_ask {call : LinkCall} {a : call.Answer} (answered : answer call s = (a, s')) :
    (Client.ask call).runOn answer c s = (.ok a, c, s') := by
  have asked : (Client.ask call).runOn answer c s = (.ok (answer call s).1, c, (answer call s).2) := rfl
  rw [asked, answered]

end LinkM

/-- A network with the times of its next calls. -/
structure Timed where
  network : Network
  clock : Nat → Nat

namespace Timed
variable {s : Timed} {k : ConnectionId} {b : SimulatedBoard} {l : SimulatedLink} {f : Frame}

/-- The network at the time of the next call. -/
def current (s : Timed) : Network := { s.network with now := s.clock 0 }

def answer (call : LinkCall) (s : Timed) : call.Answer × Timed :=
  ((Network.answer call s.current).1, ⟨(Network.answer call s.current).2, fun later => s.clock (later + 1)⟩)

/-- A connection to the simulated board. -/
structure Has (s : Timed) (k : ConnectionId) (b : SimulatedBoard) (l : SimulatedLink) : Prop where
  board : s.network.board = b
  link : s.network.endpoints[k]? = some (.simulated l)

theorem Has.send (has : s.Has k b l) (bytes : List Byte) :
    ∃ s', answer (.send k bytes) s = ((l.send (s.clock 0) bytes b).1, s') ∧
      s'.Has k (l.send (s.clock 0) bytes b).2.1 (l.send (s.clock 0) bytes b).2.2 := by
  obtain ⟨rfl, link⟩ := has
  have sent : Network.answer (.send k bytes) s.current = _ :=
    Network.send_simulated (n := s.current) link bytes
  unfold answer
  rw [sent]
  exact ⟨_, rfl, rfl, Network.getElem?_replaced link _⟩

theorem Has.receive (has : s.Has k b l) (count : Nat) :
    ∃ s', answer (.receive k count) s = ((l.receive count b).1, s') ∧ s'.Has k b (l.receive count b).2 := by
  obtain ⟨rfl, link⟩ := has
  have received : Network.answer (.receive k count) s.current = _ :=
    Network.receive_simulated (n := s.current) link count
  unfold answer
  rw [received]
  exact ⟨_, rfl, rfl, Network.getElem?_replaced link _⟩

/-- Bytes that are ready are taken. -/
theorem Has.take {bytes rest : List Byte} (has : s.Has k b { outbox := bytes ++ rest }) :
    ∃ s', answer (.receive k bytes.length) s = (.ok bytes, s') ∧ s'.Has k b { outbox := rest } := by
  have taken : SimulatedLink.receive bytes.length b { outbox := bytes ++ rest } =
      (.ok bytes, { outbox := rest }) := by
    have enough : ¬(bytes ++ rest).length < bytes.length := by
      rw [List.length_append]
      omega
    rw [SimulatedLink.receive, if_neg enough, List.take_left, List.drop_left]
  obtain ⟨s', received, has'⟩ := has.receive bytes.length
  rw [taken] at received has'
  exact ⟨s', received, has'⟩

theorem delivers (k : ConnectionId) (b : SimulatedBoard) :
    Delivers answer k fun s bytes => s.Has k b { outbox := bytes } where
  enough := Has.take
  short := by
    intro s bytes count has more
    obtain ⟨s', received, _⟩ := has.receive count
    rw [SimulatedLink.receive, if_pos more] at received
    exact ⟨_, s', received⟩

/-- An answer that is ready is read as a whole, and nothing is left of it. -/
theorem Has.wholeFrame (has : s.Has k b { outbox := f.encode }) (whole : f.IsWhole) :
    ∃ s', Program.run (I := linkInterface) answer (readFrame k) s = (.ok f, s') ∧ s'.Has k b {} :=
  (delivers k b).readFrame whole ((List.append_nil f.encode).symm ▸ has)

variable {c : Client} {expected command : Command}

theorem guarding_calm {α : Type} {result : Except LinkError α}
    (calm : ∀ e, result = .error e → e.isFatal = false) :
    (Client.guarding result).runOn answer c s = (result, c, s) := by
  cases result with
  | ok a => rfl
  | error e =>
    unfold Client.guarding
    dsimp only
    rw [calm e rfl]
    rfl

theorem Has.sendBytes (has : s.Has k b l) (linked : c.connection = some k) (alive : l.closed = false)
    (bytes : List Byte) : ∃ s' now, (Client.sendBytes bytes).runOn answer c s = (.ok (), c, s') ∧
      s'.Has k (l.read now (l.inbox ++ bytes) b).1 (l.read now (l.inbox ++ bytes) b).2 := by
  obtain ⟨s', sent, has'⟩ := has.send bytes
  rw [SimulatedLink.send_open alive] at sent has'
  refine ⟨s', s.clock 0, ?_, has'⟩
  unfold Client.sendBytes
  rw [LinkM.runOn_get, linked]
  exact LinkM.runOn_bind_ok (LinkM.runOn_ask sent)

/-- An answer that is ready is what the client gets, if it costs no connection. -/
theorem Has.receiveFrame (has : s.Has k b { outbox := f.encode }) (whole : f.IsWhole)
    (linked : c.connection = some k)
    (calm : ∀ e, Client.expect command expected f = .error e → e.isFatal = false) :
    ∃ s', (Client.receive command expected).runOn answer c s =
      (Client.expect command expected f, c, s') ∧ s'.Has k b {} := by
  obtain ⟨s', read, has'⟩ := has.wholeFrame whole
  refine ⟨s', ?_, has'⟩
  unfold Client.receive
  rw [LinkM.runOn_get, linked]
  have lifted : LinkM.runOn answer (ExceptT.lift (StateT.lift (readFrame k))) c s =
      (.ok (.ok f), c, s') := by
    rw [LinkM.runOn_lift, read]
  exact (LinkM.runOn_bind_ok lifted).trans (guarding_calm calm)

theorem expect_refused {f : Frame} (suits : f.command = expected ∨ f.command = .nack) :
    ∀ e, Client.expect command expected f = .error e → e = .refused command := by
  intro e refused
  unfold Client.expect at refused
  split at refused
  · cases refused
  · rename_i other
    rw [if_pos (suits.resolve_left other)] at refused
    cases refused
    rfl

/-- What a board answers is what is asked for, or a refusal. -/
theorem perform_suits (b : SimulatedBoard) (now : Nat) (request : Frame) :
    (b.perform now request).2.command = request.reply ∨ (b.perform now request).2.command = .nack :=
  (b.perform_reply now request).imp_right fun refused => by rw [refused]; rfl

theorem runOn_require {allowed : List LinkState} (connected : c.state ≠ .disconnected) (listed : c.state ∈ allowed)
    (operation : Command) : (Client.require operation allowed).runOn answer c s = (.ok (), c, s) := by
  unfold Client.require
  rw [LinkM.runOn_get, if_neg connected, if_neg (not_not_intro listed)]
  rfl

/-- A request that an idle board neither ignores nor refuses is answered at once, and the connection is idle again. -/
theorem Has.ask (has : s.Has k b {}) (linked : c.connection = some k) (idle : b.pending = 0) (request : Frame)
    (heard : request.command ∉ b.ignores) (granted : request.command ∉ b.refuses) (whole : request.IsWhole)
    (stays : request.command ≠ .close) :
    ∃ s' now,
      (Client.transact request request.reply).runOn answer c s =
        (Client.expect request.command request.reply ((b.note request.command).perform now request).2, c, s') ∧
      s'.Has k ((b.note request.command).perform now request).1 {} := by
  obtain ⟨s₁, now, sent, has₁⟩ := has.sendBytes linked rfl request.encode
  have open_ : (request.command == .close) = false := by simpa using stays
  rw [List.nil_append, SimulatedLink.read_request idle whole, SimulatedLink.answer,
    SimulatedBoard.handle_granted heard granted, open_] at has₁
  have whole' := (b.note request.command).perform_isWhole now request
  have calm : ∀ e, Client.expect request.command request.reply
      ((b.note request.command).perform now request).2 = .error e → e.isFatal = false := by
    intro e refused
    rw [expect_refused (perform_suits _ _ _) e refused]
    rfl
  obtain ⟨s₂, received, has₂⟩ := Has.receiveFrame has₁ whole' linked calm
  exact ⟨s₂, now, (LinkM.runOn_bind_ok sent).trans received, has₂⟩

theorem Has.transact (has : s.Has k b {}) (linked : c.connection = some k) (healthy : b.Healthy)
    (idle : b.pending = 0) (request : Frame) (whole : request.IsWhole) (stays : request.command ≠ .close) :
    ∃ s' now,
      (Client.transact request request.reply).runOn answer c s =
        (Client.expect request.command request.reply ((b.note request.command).perform now request).2, c, s') ∧
      s'.Has k ((b.note request.command).perform now request).1 {} :=
  has.ask linked idle request (healthy.ignores ▸ List.not_mem_nil) (healthy.refuses ▸ List.not_mem_nil) whole stays

/-- The pieces of an announced stream are stored one after the other, and acknowledged with the last. -/
theorem Has.sendAll {pieces : List (List Byte)} (has : s.Has k b {}) (linked : c.connection = some k)
    (nonempty : ∀ piece ∈ pieces, piece ≠ []) (some : pieces ≠ [])
    (awaited : b.pending = pieces.flatten.length) : ∃ s',
      (pieces.forM Client.sendBytes).runOn answer c s = (.ok (), c, s') ∧
      s'.Has k (b.loaded pieces.flatten) { outbox := Frame.ack.encode } := by
  induction pieces generalizing b s with
  | nil => exact absurd rfl some
  | cons piece rest ih =>
    rw [List.forall_mem_cons] at nonempty
    rw [List.flatten_cons, List.length_append] at awaited
    obtain ⟨s₁, now, sent, has₁⟩ := has.sendBytes linked rfl piece
    rw [List.nil_append, SimulatedLink.read_piece nonempty.1 (by omega)] at has₁
    by_cases last : rest = []
    · subst last
      rw [SimulatedBoard.store_last (by simpa using awaited.symm)] at has₁
      refine ⟨s₁, (LinkM.runOn_bind_ok sent).trans rfl, ?_⟩
      rw [List.flatten_cons, List.flatten_nil, List.append_nil]
      exact has₁
    · have more : 0 < rest.flatten.length := by
        obtain ⟨next, later, rfl⟩ := List.exists_cons_of_ne_nil last
        have := List.length_pos_of_ne_nil (nonempty.2 next List.mem_cons_self)
        rw [List.flatten_cons, List.length_append]
        omega
      rw [SimulatedBoard.store_more (by omega)] at has₁
      obtain ⟨s₂, sent', has₂⟩ := ih has₁ nonempty.2 last (by dsimp only; omega)
      refine ⟨s₂, (LinkM.runOn_bind_ok sent).trans sent', ?_⟩
      have joined : ({ b with data := b.data ++ piece, pending := b.pending - piece.length } :
          SimulatedBoard).loaded rest.flatten = b.loaded (piece ++ rest.flatten) := by
        rw [SimulatedBoard.loaded, SimulatedBoard.loaded, ← List.append_assoc]
        rfl
      rw [List.flatten_cons, ← joined]
      exact has₂

end Timed
end Sequencer
