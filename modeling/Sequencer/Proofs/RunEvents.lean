import Sequencer.Proofs.ProgramLogic
import Sequencer.Run.Worker

/-!
What a run does, read off its calls.

On a connection a request is a frame that is sent, and its answer is the frame that is received next
or the error in its place. After an acknowledged `write` the bytes that follow are no requests: they
are the stream, up to the next answer. Messages are posted to and taken from mailboxes.
-/
namespace Sequencer

inductive RunEvent where
  | begun (stream : Stream)
  /-- A request was sent, or an attempt was made. -/
  | requested (request : Frame)
  | answered (answer : Except LinkError Frame)
  | posted (recipient : String) (message : Message)
  | took (message : Message)
  | returned (result : Except WorkerError Report)

/-- Where the talk with the board stands. -/
inductive Line where
  | ready
  | asked (request : Frame)
  /-- The stream may be sent. -/
  | uploading
  /-- The header of the answer is there; without a request it is the answer to the stream. -/
  | answering (request : Option Frame) (header : List Byte)

namespace Line

def afterAnswer (request : Option Frame) (answer : Except LinkError Frame) : Line :=
  match request, answer with
  | some (.write _), .ok .ack => uploading
  | _, _ => ready

/-- Reads a send with its result. -/
def hearSend (line : Line) (bytes : List Byte) (result : Except LinkError Unit) :
    Line × List RunEvent :=
  match line, Frame.decode bytes, result with
  | uploading, _, .ok _ => (uploading, [])
  | uploading, _, .error e => (ready, [.answered (.error e)])
  | _, .ok request, .ok _ => (asked request, [.requested request])
  | _, .ok request, .error e => (ready, [.requested request, .answered (.error e)])
  | _, .error _, _ => (ready, [])

def checkHeader (header : List Byte) : Except LinkError (Command × Nat) :=
  Header.check (Header.ofBytes (header.getD 0 0) (header.getD 1 0))

def hearHeader (request : Option Frame) (header : List Byte) : Line × List RunEvent :=
  match checkHeader header with
  | .ok _ => (answering request header, [])
  | .error e => (ready, [.answered (.error e)])

/-- Reads the result of a receive. -/
def hearReceive (line : Line) (result : Except LinkError (List Byte)) : Line × List RunEvent :=
  match line, result with
  | ready, _ => (ready, [])
  | _, .error e => (ready, [.answered (.error e)])
  | asked request, .ok header => hearHeader (some request) header
  | uploading, .ok header => hearHeader none header
  | answering request header, .ok rest =>
    let answer := Frame.decode (header ++ rest)
    (afterAnswer request answer, [.answered answer])

def hearLink (line : Line) : (c : LinkCall) → c.Answer → Line × List RunEvent
  | .send _ bytes, result => line.hearSend bytes result
  | .receive _ _, result => line.hearReceive result
  | .shutdown _, _ => (ready, [])

def taken (answer : Option (Except BarrierError Message)) : List RunEvent :=
  match answer with
  | some (.ok message) => [.took message]
  | _ => []

def hear (line : Line) : (c : RunCall) → c.Answer → Line × List RunEvent
  | .link c, answer => line.hearLink c answer
  | .post recipient message, _ => (line, [.posted recipient message])
  | .wait _ _ _, answer => (line, taken (some answer))
  | .poll _ _, answer => (line, taken answer)
  | _, _ => (line, [])

end Line

/-- A run as it looks at one moment. -/
structure View where
  line : Line := .ready
  events : List RunEvent := []

/-- What has to hold of the events so far when a new one happens. -/
abbrev Law := List RunEvent → RunEvent → Prop

/-- Events that happen one after the other. -/
def Law.allows (law : Law) : List RunEvent → List RunEvent → Prop
  | _, [] => True
  | past, x :: rest => law past x ∧ law.allows (past ++ [x]) rest

/-- A message with the sender, event and counter that were awaited, from a sender that got through. -/
structure Awaited.IsMet (a : Awaited) (m : Message) : Prop where
  sender : m.sender = a.sender
  event : m.event = a.event
  counter : m.counter = a.counter
  ok : m.ok = true

/-- Mailboxes take every message, and hand out only what was awaited. -/
def RunCall.possible : (c : RunCall) → c.Answer → Prop
  | .post _ _, answer => answer = .ok ()
  | .wait _ a _, answer => ∀ m, answer = Except.ok m → a.IsMet m
  | .poll _ a, answer => ∀ m, answer = some (Except.ok m) → a.IsMet m
  | _, _ => True

def View.hear (v : View) (heard : Line × List RunEvent) : View := ⟨heard.1, v.events ++ heard.2⟩

theorem View.hear_nothing (v : View) : v.hear (v.line, []) = v := by
  rw [View.hear, List.append_nil]

def runWatch (law : Law) : Watch runInterface View where
  see v c answer := v.hear (v.line.hear c answer)
  possible := RunCall.possible
  lawful v c answer := law.allows v.events (v.line.hear c answer).2

def linkWatch (law : Law) : Watch linkInterface View where
  see v c answer := v.hear (v.line.hearLink c answer)
  possible _ _ := True
  lawful v c answer := law.allows v.events (v.line.hearLink c answer).2

section
variable {law : Law} {v : View} {c : LinkCall}

/-- A call on a connection, by what is heard of it with each answer. -/
theorem wp_linkCall {α : Type} {Q : α → View → Prop} {f : c.Answer → Program linkInterface α}
    (holds : ∀ answer, ∃ heard, v.line.hearLink c answer = heard ∧ law.allows v.events heard.2 ∧
      (f answer).wp (linkWatch law) Q (v.hear heard)) :
    (Program.ask (I := linkInterface) c >>= f).wp (linkWatch law) Q v := by
  intro answer _
  obtain ⟨_, rfl, lawful, rest⟩ := holds answer
  exact ⟨lawful, rest⟩

theorem wp_linkAsk {τ ε α : Type} {Q : Except ε α → τ → View → Prop} {t : τ}
    {f : c.Answer → Task linkInterface ε τ α}
    (holds : ∀ answer, ∃ heard, v.line.hearLink c answer = heard ∧ law.allows v.events heard.2 ∧
      Task.wp (linkWatch law) (f answer) Q t (v.hear heard)) :
    Task.wp (linkWatch law) ((ExceptT.lift (StateT.lift (Program.ask (I := linkInterface) c)) :
      Task linkInterface ε τ c.Answer) >>= f) Q t v := by
  intro answer _
  obtain ⟨_, rfl, lawful, rest⟩ := holds answer
  exact ⟨lawful, rest⟩

end

theorem wp_ofLink {α : Type} {law : Law} {Q : α → View → Prop} {p : Program linkInterface α} {v : View}
    (holds : p.wp (linkWatch law) Q v) : (Program.ofLink p).wp (runWatch law) Q v := by
  induction p generalizing v with
  | done a => exact holds
  | call c next ih =>
    intro answer _
    obtain ⟨lawful, rest⟩ := holds answer trivial
    exact ⟨lawful, ih answer rest⟩

end Sequencer
