import Mathlib.Data.List.Chain
import Sequencer.Proofs.FrameCodec
import Sequencer.Proofs.Growth

/-!
A request of a client and its answer: what becomes of the two, what they leave of the client and on the
line, and when a connection counts as never lost.
-/
namespace Sequencer

/-- A law that lets boards answer as they like and restricts no request but `start`. -/
structure Law.IsLenient (law : Law) : Prop where
  answered : ∀ past answer, law past (.answered answer)
  took : ∀ past message, law past (.took message)
  requested : ∀ past request, request.command ≠ .start → law past (.requested request)

theorem Law.IsLenient.allows_answer {law : Law} (lenient : law.IsLenient) (past : List RunEvent)
    (answer : Except LinkError Frame) : law.allows past [.answered answer] :=
  ⟨lenient.answered past answer, trivial⟩

/-- Boards and mailboxes may do what they like. -/
def Law.free : Law := fun _ _ => True

theorem Law.free_isLenient : Law.free.IsLenient :=
  ⟨fun _ _ => trivial, fun _ _ => trivial, fun _ _ _ => trivial⟩

/-- Whether the next thing to come is the answer to a request, or to the stream. -/
def Line.Awaits (line : Line) (request : Option Frame) : Prop :=
  match request with
  | some request => line = .asked request
  | none => line = .uploading

/-- What a board answers that does what it is asked. -/
def Frame.reply : Frame → Command
  | config _ => .config
  | status => .statusReply
  | statusIrq => .statusIrqReply
  | statusFull => .statusFullReply
  | getRegister _ => .getRegister
  | setRegister _ => .setRegister
  | _ => .ack

/-- The expected answer, or a refusal. After any other answer the connection is dropped. -/
def Suits (expected : Command) : Except LinkError Frame → Prop
  | .ok f => f.command = expected ∨ f.command = .nack
  | .error _ => False

instance (expected : Command) (answer : Except LinkError Frame) : Decidable (Suits expected answer) :=
  match answer with
  | .ok f => inferInstanceAs (Decidable (f.command = expected ∨ f.command = .nack))
  | .error _ => inferInstanceAs (Decidable False)

namespace RunEvent

/-- What should be answered next: what this request asks for, or the acknowledgement of the stream. -/
def reply : RunEvent → Command
  | requested request => request.reply
  | _ => .ack

/-- Whether the second event may follow the first on a connection that is not lost. -/
def Admits (x y : RunEvent) : Prop :=
  match y with
  | answered answer => Suits x.reply answer
  | _ => True

instance : DecidableRel Admits := fun x y =>
  match y with
  | answered answer => inferInstanceAs (Decidable (Suits x.reply answer))
  | begun _ | requested _ | posted _ _ | took _ | returned _ => inferInstanceAs (Decidable True)

/-- Requests with one of the commands, and answers. -/
def isTalkOf (commands : List Command) : RunEvent → Bool
  | requested request => request.command ∈ commands
  | answered _ => true
  | _ => false

section
variable {commands : List Command} {x : RunEvent}

theorem isTalk_of_isTalkOf (talk : x.isTalkOf commands) : x.isTalk := by
  cases x <;> simp_all [isTalkOf, isTalk]

theorem isQuiet_of_isTalkOf (noStart : .start ∉ commands) (noStop : .stop ∉ commands)
    (talk : x.isTalkOf commands) : x.isQuiet := by
  cases x with
  | requested request =>
    simp only [isTalkOf, decide_eq_true_eq] at talk
    simp only [isQuiet, List.mem_cons, List.not_mem_nil, or_false, decide_eq_true_eq, not_or]
    exact ⟨fun same => noStart (same ▸ talk), fun same => noStop (same ▸ talk)⟩
  | answered answer => rfl
  | _ => cases talk

end

end RunEvent

/-- The connection was never lost: everything was answered with what was asked for, or refused. -/
def Steady (events : List RunEvent) : Prop := events.IsChain RunEvent.Admits

instance (events : List RunEvent) : Decidable (Steady events) :=
  inferInstanceAs (Decidable (events.IsChain RunEvent.Admits))

theorem Steady.of_later {past events : List RunEvent} (steady : Steady events) (earlier : past <+: events) :
    Steady past := by
  obtain ⟨_, rfl⟩ := earlier
  exact steady.left_of_append

namespace Client

/-- A client with a connection in use. -/
structure IsLinked (c : Client) : Prop where
  connected : c.connection.isSome
  inUse : c.state ≠ .disconnected

/-- A client that can ask what is allowed in some states only. -/
structure Can (allowed : List LinkState) (c : Client) : Prop where
  linked : c.IsLinked
  here : c.state ∈ allowed

/-- A client that has asked its board has a connection in use, unless it was lost. -/
def InTouch (c : Client) (events : List RunEvent) : Prop :=
  Steady events → (∃ request, .requested request ∈ events) → c.IsLinked

end Client

namespace View

variable {kind : RunEvent → Bool} {c c' : Client} {v v' : View} {request : Frame} {expected : Command}
  {able able' : Prop}

/-- A request that failed: the client was not able to ask, or had another answer than the expected
one. After a refusal it is as it was. -/
inductive Missed (request : Frame) (expected : Command) (able : Prop) (c : Client) (v : View)
    (c' : Client) (v' : View) : Prop where
  | unsent (unable : ¬able) (same : c' = c) (unheard : v' = v)
  | failed {answer : Except LinkError Frame} (could : able)
      (heard : v' = ⟨.ready, v.events ++ [.requested request, .answered answer]⟩)
      (unmet : ∀ f, answer = .ok f → f.command ≠ expected) (kept : Suits expected answer → c' = c)

/-- How a request went: it failed in one way or another, or it had its answer. -/
inductive Asked (request : Frame) (expected : Command) (able : Prop) (c : Client) (v : View)
    (c' : Client) (v' : View) : Except LinkError Frame → Prop where
  | missed {e : LinkError} (missed : Missed request expected able c v c' v') :
      Asked request expected able c v c' v' (.error e)
  | answered {f : Frame} (could : able) (linked : c'.IsLinked) (command : f.command = expected)
      (heard : v' = v.after request f) : Asked request expected able c v c' v' (.ok f)

/-- How an operation went that is one request, with a result that depends on the answer alone. -/
def Asks {α : Type} (request : Frame) (expected : Command) (allowed : List LinkState)
    (value : Frame → α) (c : Client) (v : View) (r : Except LinkError α) (c' : Client) (v' : View) :
    Prop :=
  ∃ outcome, v.Asked request expected (c.Can allowed) c c' v' outcome ∧ r = value <$> outcome

theorem Missed.imp (missed : Missed request expected able c v c' v') (same : able ↔ able') :
    Missed request expected able' c v c' v' := by
  cases missed with
  | unsent unable unchanged unheard => exact .unsent (fun could => unable (same.mpr could)) unchanged unheard
  | failed could heard unmet kept => exact .failed (same.mp could) heard unmet kept

theorem talk_grows {answer : Except LinkError Frame} (request_kind : kind (.requested request))
    (answer_kind : ∀ a, kind (.answered a)) :
    v.Grows kind ⟨.ready, v.events ++ [.requested request, .answered answer]⟩ := by
  refine ⟨rfl, _, rfl, fun x member => ?_⟩
  simp only [List.mem_cons, List.not_mem_nil, or_false] at member
  rcases member with rfl | rfl
  · exact request_kind
  · exact answer_kind _

theorem Missed.grows (missed : Missed request expected able c v c' v') (ready : v.line = .ready)
    (request_kind : kind (.requested request)) (answer_kind : ∀ a, kind (.answered a)) :
    Grows kind v v' := by
  cases missed with
  | unsent unable same unheard =>
    rw [unheard]
    exact .refl ready
  | failed could heard unmet kept =>
    rw [heard]
    exact talk_grows request_kind answer_kind

theorem Asked.grows {outcome : Except LinkError Frame}
    (asked : Asked request expected able c v c' v' outcome) (ready : v.line = .ready)
    (request_kind : kind (.requested request)) (answer_kind : ∀ a, kind (.answered a)) :
    Grows kind v v' := by
  cases asked with
  | missed missed => exact missed.grows ready request_kind answer_kind
  | answered could linked command heard =>
    rw [heard]
    exact talk_grows request_kind answer_kind

/-- A request goes out if the client is able to ask, and otherwise nothing changes. -/
theorem Asked.sent {outcome : Except LinkError Frame}
    (asked : Asked request expected able c v c' v' outcome) (linked : able → c.IsLinked) :
    (¬able ∧ c' = c ∧ v' = v) ∨ ∃ answer,
      v' = ⟨.ready, v.events ++ [.requested request, .answered answer]⟩ ∧
        (Suits expected answer → c'.IsLinked) := by
  cases asked with
  | missed missed =>
    cases missed with
    | unsent unable same unheard => exact .inl ⟨unable, same, unheard⟩
    | failed could heard unmet kept => exact .inr ⟨_, heard, fun suits => kept suits ▸ linked could⟩
  | answered could linked command heard => exact .inr ⟨_, heard, fun _ => linked⟩

/-- The last answer suits its request as long as the connection is not lost. -/
theorem suits_of_steady {events : List RunEvent} {answer : Except LinkError Frame}
    (steady : Steady (events ++ [.requested request, .answered answer])) : Suits request.reply answer :=
  List.isChain_pair.mp steady.right_of_append

theorem Asked.inTouch {outcome : Except LinkError Frame}
    (asked : Asked request expected able c v c' v' outcome) (reply : request.reply = expected)
    (linked : able → c.IsLinked) (touch : c.InTouch v.events) : c'.InTouch v'.events := by
  rcases asked.sent linked with ⟨_, rfl, rfl⟩ | ⟨answer, rfl, kept⟩
  · exact touch
  · intro steady _
    exact kept (reply ▸ suits_of_steady steady)

end View

end Sequencer
