import Sequencer.Bus.Word
import Sequencer.Keyed

/-!
Mailboxes: named events with counters, by which workers wait for each other.

Counters grow from one barrier to the next. A message with a lower counter than the awaited one is
left over from an earlier attempt and thrown away when it stands in the way.
-/
namespace Sequencer

structure Message where
  event : String
  sender : String
  counter : Word
  /-- Whether the sender got through to this point. -/
  ok : Bool := true
  /-- The sender saw a problem that is no failure. -/
  warn : Bool := false
  deriving DecidableEq, Repr

inductive BarrierError where
  | timeout (peer event : String)
  | peerFailed (peer event : String)
  | counterMismatch (event : String) (expected actual : Word)
  /-- The messages themselves did not get through. -/
  | bus (reason : String)
  deriving DecidableEq, Repr

namespace BarrierError

def message : BarrierError → String
  | timeout peer event => s!"Timeout waiting for {event} from {peer}"
  | peerFailed peer event => s!"Peer {peer} reported a failure at {event}"
  | counterMismatch event expected actual =>
    s!"Event {event}: received counter {actual.toNat}, expected {expected.toNat}"
  | bus reason => s!"Event bus: {reason}"

/-- The short name of an error. -/
def kind : BarrierError → String
  | timeout .. => "BarrierTimeout"
  | peerFailed .. => "PeerReportedFailure"
  | counterMismatch .. => "CounterMismatch"
  | bus _ => "Bus"

end BarrierError

/-- What one waits for: an event of a sender, with its counter. -/
structure Awaited where
  sender : String
  event : String
  counter : Word
  deriving DecidableEq, Repr

namespace Awaited

def isFrom (a : Awaited) (m : Message) : Bool := m.sender == a.sender && m.event == a.event

/-- What a message of the right sender and event means that is not stale. -/
def judge (a : Awaited) (m : Message) : Except BarrierError Message :=
  if m.counter ≠ a.counter then .error (.counterMismatch a.event a.counter m.counter)
  else if !m.ok then .error (.peerFailed a.sender a.event)
  else .ok m

end Awaited

/-- Removes the first message of the sender and event that is not stale, and every stale one before
it. -/
def takeMessage (a : Awaited) : List Message → Option (Except BarrierError Message) × List Message
  | [] => (none, [])
  | m :: rest =>
    if !a.isFrom m then
      let (result, rest) := takeMessage a rest
      (result, m :: rest)
    else if m.counter < a.counter then takeMessage a rest
    else (some (a.judge m), rest)

/-- The mailboxes of all workers. -/
structure Mailboxes where
  boxes : Keyed (List Message)

namespace Mailboxes

def empty : Mailboxes := ⟨.empty⟩

/-- The name of a worker's mailbox. -/
def nameOf (worker : String) : String := s!"{worker}_evt"

def pending (m : Mailboxes) (mailbox : String) : List Message := (m.boxes.get? mailbox).getD []

def deliver (m : Mailboxes) (mailbox : String) (message : Message) : Mailboxes :=
  ⟨m.boxes.insert mailbox (m.pending mailbox ++ [message])⟩

def post (m : Mailboxes) (worker : String) (message : Message) : Mailboxes :=
  m.deliver (nameOf worker) message

/-- Takes the awaited message out of a worker's mailbox, if it is there. -/
def take (m : Mailboxes) (worker : String) (a : Awaited) :
    Option (Except BarrierError Message) × Mailboxes :=
  let (result, rest) := takeMessage a (m.pending (nameOf worker))
  (result, ⟨m.boxes.insert (nameOf worker) rest⟩)

/-- Removes all messages with a counter below the given one; the result says how many. -/
def prune (m : Mailboxes) (worker : String) (counter : Word) : Nat × Mailboxes :=
  let box := m.pending (nameOf worker)
  let kept := box.filter fun message => !(message.counter < counter)
  (box.length - kept.length, ⟨m.boxes.insert (nameOf worker) kept⟩)

end Mailboxes

end Sequencer
