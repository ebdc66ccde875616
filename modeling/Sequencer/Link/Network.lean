import Sequencer.Link.Client
import Sequencer.Link.Simulated

/-!
Connections without hardware: to one simulated board, or to a peer that reads its answers from a
script and records what it is sent.
-/
namespace Sequencer

/-- A peer with a fixed sequence of answers. -/
structure Script where
  unread : List Byte := []
  /-- At the end of the answers the peer is gone instead of late. -/
  closes : Bool := false
  /-- The number of sends before the peer is gone. -/
  sendsLeft : Nat := 1000
  deriving DecidableEq, Repr

inductive Endpoint where
  | simulated (link : SimulatedLink)
  | scripted (script : Script)
  deriving DecidableEq, Repr

/-- What a scripted peer has seen. -/
inductive Recorded where
  | sent (bytes : List Byte)
  | shutdown
  deriving DecidableEq, Repr

structure Network where
  board : SimulatedBoard
  endpoints : Array Endpoint := #[]
  recorded : List Recorded := []
  /-- What the next calls for a connection get; after that they get the simulated board. -/
  upcoming : List (Except LinkError Endpoint) := []
  /-- The time in nanoseconds. -/
  now : Nat := 0

namespace Network

/-- How long it takes to send something to the simulated board, in nanoseconds. -/
def sendTime : Nat := 1000

def connect (n : Network) (e : Endpoint) : ConnectionId × Network :=
  (n.endpoints.size, { n with endpoints := n.endpoints.push e })

/-- Opens the next connection. -/
def dial (n : Network) : Except LinkError ConnectionId × Network :=
  match n.upcoming with
  | [] =>
    let (connection, n) := n.connect (.simulated {})
    (.ok connection, n)
  | .error e :: rest => (.error e, { n with upcoming := rest })
  | .ok endpoint :: rest =>
    let (connection, n) := { n with upcoming := rest }.connect endpoint
    (.ok connection, n)

private def put (n : Network) (connection : ConnectionId) (e : Endpoint) : Network :=
  { n with endpoints := n.endpoints.setIfInBounds connection e }

def send (n : Network) (connection : ConnectionId) (bytes : List Byte) :
    Except LinkError Unit × Network :=
  match n.endpoints[connection]? with
  | none => (.error .notConnected, n)
  | some (.simulated link) =>
    let (result, board, link) := link.send n.now bytes n.board
    (result, { n.put connection (.simulated link) with board, now := n.now + sendTime })
  | some (.scripted s) =>
    match s.sendsLeft with
    | 0 => (.error .peerClosed, n)
    | left + 1 =>
      (.ok (), { n.put connection (.scripted { s with sendsLeft := left }) with
        recorded := n.recorded ++ [.sent bytes] })

def receive (n : Network) (connection : ConnectionId) (count : Nat) :
    Except LinkError (List Byte) × Network :=
  match n.endpoints[connection]? with
  | none => (.error .notConnected, n)
  | some (.simulated link) =>
    let (result, link) := link.receive count n.board
    (result, n.put connection (.simulated link))
  | some (.scripted s) =>
    if s.unread.length < count then
      (.error (if s.closes then .peerClosed else .timeout "reading the script"), n)
    else
      (.ok (s.unread.take count),
        n.put connection (.scripted { s with unread := s.unread.drop count }))

def shutdown (n : Network) (connection : ConnectionId) : Network :=
  match n.endpoints[connection]? with
  | none => n
  | some (.simulated link) => n.put connection (.simulated { link with closed := true })
  | some (.scripted _) => { n with recorded := n.recorded ++ [.shutdown] }

def answer (c : LinkCall) (n : Network) : c.Answer × Network :=
  match c with
  | .send connection bytes => n.send connection bytes
  | .receive connection count => n.receive connection count
  | .shutdown connection => ((), n.shutdown connection)

/-! ### Single connections -/

theorem getElem?_replaced {endpoints : Array Endpoint} {connection : ConnectionId} {e : Endpoint}
    (here : endpoints[connection]? = some e) (e' : Endpoint) :
    (endpoints.setIfInBounds connection e')[connection]? = some e' := by
  obtain ⟨inside, _⟩ := Array.getElem?_eq_some_iff.mp here
  rw [Array.getElem?_setIfInBounds_self, if_pos inside]

theorem send_simulated {n : Network} {connection : ConnectionId} {link : SimulatedLink}
    (here : n.endpoints[connection]? = some (.simulated link)) (bytes : List Byte) :
    n.send connection bytes = ((link.send n.now bytes n.board).1,
      { n with
        board := (link.send n.now bytes n.board).2.1
        endpoints := n.endpoints.setIfInBounds connection
          (.simulated (link.send n.now bytes n.board).2.2)
        now := n.now + sendTime }) := by
  unfold send
  rw [here]
  rfl

theorem receive_simulated {n : Network} {connection : ConnectionId} {link : SimulatedLink}
    (here : n.endpoints[connection]? = some (.simulated link)) (count : Nat) :
    n.receive connection count = ((link.receive count n.board).1,
      { n with
        endpoints := n.endpoints.setIfInBounds connection (.simulated (link.receive count n.board).2) }) := by
  unfold receive
  rw [here]
  rfl

theorem receive_scripted {n : Network} {connection : ConnectionId} {script : Script}
    (here : n.endpoints[connection]? = some (.scripted script)) (count : Nat) :
    n.receive connection count =
      if script.unread.length < count then
        (.error (if script.closes then .peerClosed else .timeout "reading the script"), n)
      else
        (.ok (script.unread.take count),
          { n with
            endpoints := n.endpoints.setIfInBounds connection
              (.scripted { script with unread := script.unread.drop count }) }) := by
  unfold receive
  rw [here]
  rfl

/-- Runs a client's program on the network. -/
def runClient {α : Type} (p : LinkM α) (c : Client) (n : Network) :
    Except LinkError α × Client × Network :=
  p.runOn answer c n

end Network

end Sequencer
