import Sequencer.Link.Network
import Sequencer.Run.Worker

/-!
Several programs side by side, each with a network of its own, on shared mailboxes and one clock.

Every program goes on until it has to wait. When all of them wait, the clock moves on to the first
time at which one of them has waited long enough.
-/
namespace Sequencer

/-- What all programs of a crew share. -/
structure Premises where
  mailboxes : Mailboxes := .empty
  isAborted : Bool := false
  now : Nat := 0

/-- A program and what it has for itself. -/
structure Seat (α : Type) where
  program : Program runInterface α
  network : Network
  /-- Until when the next call waits at most, if it has begun to wait. -/
  due : Option Nat := none

namespace Crew

/-- A pause is never shorter. -/
def leastPause : Nat := 10 ^ 6

/-- Until when a call waits that is made now; `none` for a call that does not wait. -/
def dueAt (now : Nat) : RunCall → Option Nat
  | .wait _ _ timeout => some (now + timeout)
  | .pause span => some (now + max span leastPause)
  | _ => none

/-- The answer to a call; none as long as it has to wait. -/
def answer (c : RunCall) (isOver : Bool) (n : Network) (p : Premises) :
    Option c.Answer × Network × Premises :=
  match c with
  | .link call =>
    let (result, n) := { n with now := p.now }.answer call
    (some result, n, { p with now := n.now })
  | .connect =>
    let (result, n) := n.dial
    (some result, n, p)
  | .post worker message =>
    (some (.ok ()), n, { p with mailboxes := p.mailboxes.post worker message })
  | .wait worker awaited _ =>
    let (result, mailboxes) := p.mailboxes.take worker awaited
    let late : Option (Except BarrierError Message) :=
      if isOver then some (.error (.timeout awaited.sender awaited.event)) else none
    (result <|> late, n, { p with mailboxes })
  | .poll worker awaited =>
    let (result, mailboxes) := p.mailboxes.take worker awaited
    (some result, n, { p with mailboxes })
  | .prune worker counter =>
    let (count, mailboxes) := p.mailboxes.prune worker counter
    (some count, n, { p with mailboxes })
  | .isAborted => (some p.isAborted, n, p)
  | .abortAll => (some (), n, { p with isAborted := true })
  | .now => (some p.now, n, p)
  | .pause _ => (if isOver then some () else none, n, p)
  | .stall => (none, n, p)

/-- Goes on with a program until it waits or is done; the last part says whether it got anywhere. -/
def advance {α : Type} :
    Program runInterface α → Option Nat → Network → Premises → Seat α × Premises × Bool
  | .done a, _, n, p => (⟨.done a, n, none⟩, p, false)
  | .call c next, due, n, p =>
    let due := due <|> dueAt p.now c
    match answer c (due.any (· ≤ p.now)) n p with
    | (some result, n, p) =>
      let (seat, p, _) := advance (next result) none n p
      (seat, p, true)
    | (none, n, p) => (⟨.call c next, n, due⟩, p, false)

/-- Every program in turn. -/
def sweep {α : Type} : List (Seat α) → Premises → List (Seat α) × Premises × Bool
  | [], p => ([], p, false)
  | seat :: rest, p =>
    let (seat, p, moved) := advance seat.program seat.due seat.network p
    let (rest, p, restMoved) := sweep rest p
    (seat :: rest, p, moved || restMoved)

def result? {α : Type} (s : Seat α) : Option (α × Network) :=
  match s.program with
  | .done a => some (a, s.network)
  | .call _ _ => none

/-- Runs all programs to their ends, in at most so many rounds. -/
def run {α : Type} : (rounds : Nat) → List (Seat α) → Premises →
    Option (List (α × Network) × Premises)
  | 0, _, _ => none
  | rounds + 1, seats, p =>
    let (seats, p, moved) := sweep seats p
    match seats.mapM result? with
    | some results => some (results, p)
    | none =>
      if moved then run rounds seats p
      else
        match (seats.filterMap Seat.due).min? with
        | some time => run rounds seats { p with now := time }
        | none => none

/-- Runs one program by itself. -/
def runAlone {α : Type} (rounds : Nat) (program : Program runInterface α) (n : Network)
    (p : Premises) : Option (α × Network × Premises) :=
  match run rounds [⟨program, n, none⟩] p with
  | some ([(a, n)], p) => some (a, n, p)
  | _ => none

end Crew

end Sequencer
