import Sequencer.Proofs.Team
import Sequencer.Proofs.Traces

/-!
Histories of a team that can be worked out: the boards answer with bytes that are given, every send gets
through, nobody aborts and no time goes by.
-/
namespace Sequencer

/-- The answer to a call with the bytes that are left, unless the call has to wait. -/
def RunCall.rehearsed : (c : RunCall) → List Byte → Mailboxes → Option (c.Answer × List Byte × Mailboxes)
  | .link (.send _ _), bytes, m => some (.ok (), bytes, m)
  | .link (.receive _ count), bytes, m =>
    if bytes.length < count then none else some (.ok (bytes.take count), bytes.drop count, m)
  | .link (.shutdown _), bytes, m => some ((), bytes, m)
  | .connect, bytes, m => some (.ok (0 : ConnectionId), bytes, m)
  | .post worker message, bytes, m => some (.ok (), bytes, m.post worker message)
  | .wait worker a _, bytes, m => (m.take worker a).1.map fun result => (result, bytes, (m.take worker a).2)
  | .poll worker a, bytes, m => some ((m.take worker a).1, bytes, (m.take worker a).2)
  | .prune worker counter, bytes, m =>
    some ((m.prune worker counter).1, bytes, (m.prune worker counter).2)
  | .isAborted, bytes, m => some (false, bytes, m)
  | .abortAll, bytes, m => some ((), bytes, m)
  | .now, bytes, m => some ((0 : Nat), bytes, m)
  | .pause _, bytes, m => some ((), bytes, m)
  | .stall, _, _ => none

theorem RunCall.rehearsed_answers {c : RunCall} {bytes bytes' : List Byte} {m m' : Mailboxes}
    {answer : c.Answer} (answered : c.rehearsed bytes m = some (answer, bytes', m')) :
    m.Answers c answer m' := by
  cases c with
  | link call =>
    cases call with
    | receive connection count =>
      replace answered : (if bytes.length < count then none else
        some ((.ok (bytes.take count) : Except LinkError (List Byte)), bytes.drop count, m)) =
          some (answer, bytes', m') := answered
      split at answered
      · cases answered
      · cases answered
        rfl
    | _ =>
      cases answered
      rfl
  | wait worker a timeout =>
    obtain ⟨result, found, same⟩ := Option.map_eq_some_iff.mp answered
    cases same
    exact .inl (Prod.ext found rfl)
  | post worker message =>
    cases answered
    exact ⟨rfl, rfl⟩
  | stall => cases answer
  | _ =>
    cases answered
    rfl

/-- Where a turn leaves a run. -/
structure Turn (α : Type) where
  rest : Program runInterface α
  line : Line
  mailboxes : Mailboxes
  events : List RunEvent

/-- Goes on with a run until it has to wait or is done. -/
def Program.turn {α : Type} : Program runInterface α → List Byte → Line → Mailboxes → Turn α
  | .done a, _, line, m => ⟨.done a, line, m, []⟩
  | .call c next, bytes, line, m =>
    match c.rehearsed bytes m with
    | none => ⟨.call c next, line, m, []⟩
    | some (answer, bytes, m) =>
      let heard := line.hear c answer
      let turn := (next answer).turn bytes heard.1 m
      { turn with events := heard.2 ++ turn.events }

/-- A whole run on these replies with all its calls, unless it has to wait. -/
def Program.playback {α : Type} : Program runInterface α → List Byte → Mailboxes →
    Option (Trace runInterface × α)
  | .done a, _, _ => some ([], a)
  | .call c next, bytes, m =>
    match c.rehearsed bytes m with
    | none => none
    | some (answer, bytes, m) =>
      ((next answer).playback bytes m).map fun played => (⟨c, answer⟩ :: played.1, played.2)

theorem Program.playback_runs {α : Type} {p : Program runInterface α} {bytes : List Byte} {m : Mailboxes}
    {trace : Trace runInterface} {a : α} (played : p.playback bytes m = some (trace, a)) :
    p.Runs trace a := by
  induction p generalizing bytes m trace with
  | done b =>
    cases played
    exact .stay _
  | call c next ih =>
    unfold playback at played
    split at played
    · cases played
    · obtain ⟨⟨later, b⟩, found, same⟩ := Option.map_eq_some_iff.mp played
      cases same
      exact .move _ (ih _ found)

inductive Cue where
  | begin (s : Stream) (polls : Nat)
  /-- A turn with the next bytes from the board. -/
  | turn (bytes : List Byte)
  | finish

namespace World

/-- What a member does on its cue; a cue that comes at a wrong time changes nothing. -/
def follow (w : World) (m : Member) (cue : Cue) : World :=
  let desk := w.desks m.name
  match cue, desk.activity with
  | .begin s polls, .resting worker =>
    if s.name = m.name ∧ worker.counter.toNat + 3 < 2 ^ 32 then
      w.move m.name ⟨desk.runs, .running ((Worker.run polls s).program worker) .ready⟩ w.mailboxes
        [.begun s]
    else w
  | .turn bytes, .running rest line =>
    let turn := rest.turn bytes line w.mailboxes
    w.move m.name ⟨desk.runs, .running turn.rest turn.line⟩ turn.mailboxes turn.events
  | .finish, .running (.done (result, worker)) _ =>
    w.move m.name ⟨desk.runs + 1, .resting worker⟩ w.mailboxes [.returned result]
  | _, _ => w

variable {t : Team} {m : Member} {w : World}

theorem move_stay (w : World) (name : String) : w.move name (w.desks name) w.mailboxes [] = w := by
  have same : (fun other => if other = name then w.desks name else w.desks other) = w.desks := by
    funext other
    split
    · rename_i own
      rw [own]
    · rfl
  unfold move
  rw [same, List.map_nil, List.append_nil]

theorem move_move (w : World) (name : String) {first second : Desk} {m m' : Mailboxes}
    {events events' : List RunEvent} (run : first.runs = (w.desks name).runs) :
    (w.move name first m events).move name second m' events' =
      w.move name second m' (events ++ events') := by
  unfold move
  simp only [if_true, run, List.map_append, List.append_assoc, World.mk.injEq, true_and, and_true]
  funext other
  split <;> rfl

theorem turn_reachable {rest : Program runInterface (Except WorkerError Report × Worker)} {line : Line}
    (reachable : Reachable t w) (member : m ∈ t.members) (bytes : List Byte)
    (running : (w.desks m.name).activity = .running rest line) :
    Reachable t (w.move m.name
      ⟨(w.desks m.name).runs, .running (rest.turn bytes line w.mailboxes).rest (rest.turn bytes line w.mailboxes).line⟩
      (rest.turn bytes line w.mailboxes).mailboxes (rest.turn bytes line w.mailboxes).events) := by
  induction rest generalizing w line bytes with
  | done a =>
    unfold Program.turn
    rw [← running, w.move_stay m.name]
    exact reachable
  | call c next ih =>
    unfold Program.turn
    split
    · rw [← running, w.move_stay m.name]
      exact reachable
    · rename_i answer bytes' mailboxes answered
      have step := Step.act answer member running (RunCall.rehearsed_answers answered)
      have later := ih answer (reachable.step step) bytes' (congrArg Desk.activity move_own)
      rw [move_own, move_move w m.name (by rfl)] at later
      exact later

/-- Whatever the cues, such a history can happen. -/
theorem follow_reachable (reachable : Reachable t w) (member : m ∈ t.members) (cue : Cue) :
    Reachable t (w.follow m cue) := by
  unfold follow
  dsimp only
  split
  · rename_i s polls worker resting
    split
    · rename_i may
      exact reachable.step (.begin polls member resting may.1 may.2)
    · exact reachable
  · rename_i bytes rest line running
    exact turn_reachable reachable member bytes running
  · rename_i result worker line running
    exact reachable.step (.finish member running)
  · exact reachable

/-- What members do on their cues, one after the other. -/
def rehearse (w : World) (cues : List (Member × Cue)) : World :=
  cues.foldl (fun w cue => w.follow cue.1 cue.2) w

theorem rehearse_reachable {cues : List (Member × Cue)} (reachable : Reachable t w)
    (members : ∀ cue ∈ cues, cue.1 ∈ t.members) : Reachable t (w.rehearse cues) := by
  induction cues generalizing w with
  | nil => exact reachable
  | cons cue rest ih =>
    exact ih (follow_reachable reachable (members cue List.mem_cons_self) cue.2)
      fun other later => members other (List.mem_cons_of_mem _ later)

end World

namespace Team

/-- Two boards, each with a stream of two samples. -/
def sample : Team where
  primary := ⟨{ name := "main", peers := ["side"] }, {}⟩
  secondaries := [⟨{ name := "side", role := .secondary, peers := ["main"] }, {}⟩]
  unique := by decide
  leads := rfl
  peers := rfl
  follows := by simp [Member.name]
  counters := by simp

def sampleStream (m : Member) : Stream :=
  ⟨m.config, [⟨0, [0x10]⟩, ⟨5, [0x20]⟩], .empty, .empty, {}, .empty⟩

def replies (frames : List Frame) : Cue := .turn (frames.flatMap Frame.encode)

def side : Member := ⟨{ name := "side", role := .secondary, peers := ["main"] }, {}⟩

/-- A part of a run on these replies and these messages. -/
def performed {α : Type} (p : RunM α) (w : Worker) (frames : List Frame) (mail : List (String × Message)) :
    Option (Trace runInterface × Except WorkerError α × Worker) :=
  (p.program w).playback (frames.flatMap Frame.encode)
    (mail.foldl (fun boxes sent => boxes.post sent.1 sent.2) .empty)

theorem performed_runs {α : Type} {p : RunM α} {w w' : Worker} {frames : List Frame} {mail : List (String × Message)}
    {trace : Trace runInterface} {r : Except WorkerError α}
    (made : performed p w frames mail = some (trace, r, w')) : Task.Runs p w trace r w' :=
  Program.playback_runs made

/-- A whole run of a member that finds these messages, with these replies. -/
def played (m : Member) (mail : List Message) (frames : List Frame) :
    Option (Trace runInterface × Except WorkerError Report × Worker) :=
  ((Worker.run 5 (sampleStream m)).program m.worker).playback (frames.flatMap Frame.encode)
    (mail.foldl (fun boxes message => boxes.post m.name message) .empty)

theorem played_runs (m : Member) (mail : List Message) (frames : List Frame)
    (check : Trace runInterface → Except WorkerError Report → Bool)
    (checked : (played m mail frames).any fun out => check out.1 out.2.1) : ∃ trace r w',
      Task.Runs (Worker.run 5 (sampleStream m)) m.worker trace r w' ∧ check trace r := by
  obtain ⟨⟨trace, r, w'⟩, ended, holds⟩ := (Option.any_eq_true _ _).mp checked
  exact ⟨trace, r, w', Program.playback_runs ended, holds⟩

/-- One run of both boards. The secondary ends while the primary still polls. -/
def sampleCues : List (Member × Cue) :=
  let leader := sample.primary
  let follower := sample.secondaries.getD 0 leader
  let ended : Frame := .statusReply { status := Status.ended, time := 5, samples := 2 }
  let runs : Frame := .statusReply { status := Status.run }
  let register : Frame := .setRegister ⟨Register.control, 0⟩
  [(leader, .begin (sampleStream leader) 5), (follower, .begin (sampleStream follower) 5),
   (leader, replies [.ack, .ack, .config { cycles := 1 }, .ack, .ack]),
   (follower, replies [.ack, .ack, .getRegister ⟨Register.control, 0⟩, register,
     .statusReply { status := Status.externalLocked }, .config { cycles := 1 }, .ack, .ack, .ack]),
   (leader, replies [.ack]), (leader, replies [runs]), (follower, replies [ended, register, .ack]),
   (follower, .finish), (leader, replies [runs]), (leader, replies [ended, .ack]), (leader, .finish)]

def sampleEnd : World := (World.initial sample).rehearse sampleCues

theorem sampleEnd_reachable : World.Reachable sample sampleEnd :=
  World.rehearse_reachable .initial (by simp [sampleCues, members, sample])

end Team

end Sequencer
