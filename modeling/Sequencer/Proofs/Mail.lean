import Sequencer.Proofs.Growth
import Sequencer.Run.Crew

/-!
Messages in mailboxes: none comes out that did not go in, and what a wait or a look hands out is what
was awaited.
-/
namespace Sequencer

namespace Keyed
variable {α : Type}

theorem mem_values_insert {k : Keyed α} {name : String} {value other : α}
    (member : other ∈ (k.insert name value).values) : other = value ∨ other ∈ k.values := by
  obtain ⟨entry, found, rfl⟩ := List.mem_map.mp member
  unfold insert at found
  split at found
  · obtain ⟨old, before, same⟩ := List.mem_map.mp found
    split at same
    · exact .inl (congrArg Prod.snd same).symm
    · exact .inr (List.mem_map.mpr ⟨old, before, congrArg Prod.snd same⟩)
  · rcases List.mem_append.mp found with before | new
    · exact .inr (List.mem_map_of_mem before)
    · rw [List.mem_singleton.mp new]
      exact .inl rfl

end Keyed

theorem takeMessage_rest {a : Awaited} {box : List Message} {m : Message}
    (member : m ∈ (takeMessage a box).2) : m ∈ box := by
  induction box with
  | nil => exact member
  | cons first rest ih =>
    unfold takeMessage at member
    split at member
    · rcases List.mem_cons.mp member with rfl | later
      · exact List.mem_cons_self
      · exact List.mem_cons_of_mem _ (ih later)
    · split at member
      · exact List.mem_cons_of_mem _ (ih member)
      · exact List.mem_cons_of_mem _ member

theorem Awaited.judge_eq_ok {a : Awaited} {m m' : Message} (source : a.isFrom m)
    (success : a.judge m = .ok m') : m' = m ∧ a.IsMet m := by
  unfold judge at success
  split at success
  · cases success
  · split at success
    · cases success
    · rename_i counter ok
      simp only [isFrom, Bool.and_eq_true, beq_iff_eq] at source
      exact ⟨(Except.ok.inj success).symm, source.1, source.2, Decidable.not_not.mp counter, by simpa using ok⟩

theorem takeMessage_ok {a : Awaited} {box : List Message} {m : Message}
    (taken : (takeMessage a box).1 = some (.ok m)) : m ∈ box ∧ a.IsMet m := by
  induction box with
  | nil => cases taken
  | cons first rest ih =>
    unfold takeMessage at taken
    split at taken
    · obtain ⟨member, met⟩ := ih taken
      exact ⟨List.mem_cons_of_mem _ member, met⟩
    · rename_i source
      split at taken
      · obtain ⟨member, met⟩ := ih taken
        exact ⟨List.mem_cons_of_mem _ member, met⟩
      · obtain ⟨rfl, met⟩ := a.judge_eq_ok (by simpa using source) (Option.some.inj taken)
        exact ⟨List.mem_cons_self, met⟩

namespace Mailboxes
variable {P P' : Message → Prop} {m m' : Mailboxes} {worker : String} {a : Awaited}

/-- Every message in a mailbox has the property. -/
def Hold (m : Mailboxes) (P : Message → Prop) : Prop := ∀ box ∈ m.boxes.values, ∀ message ∈ box, P message

theorem Hold.empty : Mailboxes.empty.Hold P := by
  intro box member
  cases member

theorem Hold.imp (holds : m.Hold P) (implies : ∀ message, P message → P' message) : m.Hold P' :=
  fun box member message inside => implies message (holds box member message inside)

theorem Hold.pending (holds : m.Hold P) (mailbox : String) : ∀ message ∈ m.pending mailbox, P message := by
  intro message member
  unfold Mailboxes.pending at member
  cases found : m.boxes.get? mailbox with
  | none =>
    rw [found] at member
    cases member
  | some box =>
    rw [found] at member
    exact holds box (Keyed.mem_values_of_get? found) message member

theorem Hold.insert (holds : m.Hold P) (mailbox : String) {box : List Message}
    (each : ∀ message ∈ box, P message) : Hold ⟨m.boxes.insert mailbox box⟩ P := by
  intro other member
  rcases Keyed.mem_values_insert member with rfl | before
  · exact each
  · exact holds other before

theorem Hold.post (holds : m.Hold P) (worker : String) {message : Message} (new : P message) :
    (m.post worker message).Hold P := by
  refine holds.insert _ fun other member => ?_
  rcases List.mem_append.mp member with before | last
  · exact holds.pending _ other before
  · rw [List.mem_singleton.mp last]
    exact new

theorem Hold.take {answer : Option (Except BarrierError Message)} (holds : m.Hold P)
    (took : m.take worker a = (answer, m')) : m'.Hold P := by
  obtain rfl : (m.take worker a).2 = m' := congrArg Prod.snd took
  exact holds.insert _ fun message member => holds.pending _ message (takeMessage_rest member)

theorem Hold.prune {counter : Word} {count : Nat} (holds : m.Hold P)
    (pruned : m.prune worker counter = (count, m')) : m'.Hold P := by
  obtain rfl : (m.prune worker counter).2 = m' := congrArg Prod.snd pruned
  exact holds.insert _ fun message member => holds.pending _ message (List.mem_filter.mp member).1

theorem Hold.taken (holds : m.Hold P) {message : Message}
    (taken : (m.take worker a).1 = some (.ok message)) : P message ∧ a.IsMet message := by
  obtain ⟨member, met⟩ := takeMessage_ok taken
  exact ⟨holds.pending _ message member, met⟩

/-- The answers that a call can have on these mailboxes, each with the mailboxes that it leaves. All
that is not about mailboxes may be answered in any way. -/
def Answers (m : Mailboxes) : (c : RunCall) → c.Answer → Mailboxes → Prop
  | .post worker message, answer, m' => answer = .ok () ∧ m' = m.post worker message
  | .wait worker a _, answer, m' => m.take worker a = (some answer, m') ∨
    m.take worker a = (none, m') ∧ answer = .error (.timeout a.sender a.event)
  | .poll worker a, answer, m' => m.take worker a = (answer, m')
  | .prune worker counter, count, m' => m.prune worker counter = (count, m')
  | _, _, m' => m' = m

end Mailboxes

namespace Line
variable {line : Line} {x : RunEvent}

theorem hearHeader_talk {request : Option Frame} {header : List Byte}
    (member : x ∈ (hearHeader request header).2) : x.isTalk := by
  unfold hearHeader at member
  split at member
  · cases member
  · rw [List.mem_singleton.mp member]
    rfl

theorem hearSend_talk {bytes : List Byte} {result : Except LinkError Unit}
    (member : x ∈ (line.hearSend bytes result).2) : x.isTalk := by
  unfold hearSend at member
  split at member
  · cases member
  · rw [List.mem_singleton.mp member]
    rfl
  · rw [List.mem_singleton.mp member]
    rfl
  · simp only [List.mem_cons, List.not_mem_nil, or_false] at member
    rcases member with rfl | rfl <;> rfl
  · cases member

theorem hearReceive_talk {result : Except LinkError (List Byte)}
    (member : x ∈ (line.hearReceive result).2) : x.isTalk := by
  unfold hearReceive at member
  split at member
  · cases member
  · rw [List.mem_singleton.mp member]
    rfl
  · exact hearHeader_talk member
  · exact hearHeader_talk member
  · rw [List.mem_singleton.mp member]
    rfl

/-- On a connection nothing is heard but requests and answers. -/
theorem hearLink_talk {c : LinkCall} {answer : c.Answer} (member : x ∈ (line.hearLink c answer).2) :
    x.isTalk := by
  cases c with
  | send connection bytes => exact hearSend_talk member
  | receive connection count => exact hearReceive_talk member
  | shutdown connection => cases member

theorem mem_taken {answer : Option (Except BarrierError Message)} (member : x ∈ taken answer) :
    ∃ message, answer = some (.ok message) ∧ x = .took message := by
  unfold taken at member
  split at member
  · exact ⟨_, rfl, List.mem_singleton.mp member⟩
  · cases member

/-- All that can be heard of a call: talk, the message that it posts, or the message that it takes. -/
theorem hear_cases {c : RunCall} {answer : c.Answer} (member : x ∈ (line.hear c answer).2) :
    x.isTalk ∨ (∃ recipient message, c = .post recipient message ∧ x = .posted recipient message) ∨
    ∃ message, x = .took message := by
  cases c with
  | link call => exact .inl (hearLink_talk member)
  | post recipient message => exact .inr (.inl ⟨recipient, message, rfl, List.mem_singleton.mp member⟩)
  | wait worker a timeout =>
    obtain ⟨message, _, took⟩ := mem_taken member
    exact .inr (.inr ⟨message, took⟩)
  | poll worker a =>
    obtain ⟨message, _, took⟩ := mem_taken member
    exact .inr (.inr ⟨message, took⟩)
  | _ => cases member

end Line

namespace Mailboxes.Answers
variable {P : Message → Prop} {m m' : Mailboxes} {c : RunCall} {answer : c.Answer} {line : Line}

/-- What a wait or a look hands out was in the mailboxes. -/
theorem taken (holds : m.Hold P) (answers : m.Answers c answer m') {message : Message}
    (took : .took message ∈ (line.hear c answer).2) : P message := by
  cases c with
  | link call => cases Line.hearLink_talk took
  | wait worker a timeout =>
    obtain ⟨_, same, event⟩ := Line.mem_taken took
    obtain rfl := RunEvent.took.inj event
    obtain rfl : answer = .ok message := Option.some.inj same
    rcases answers with found | ⟨_, impossible⟩
    · exact (holds.taken (congrArg Prod.fst found)).1
    · cases impossible
  | poll worker a =>
    obtain ⟨_, same, event⟩ := Line.mem_taken took
    obtain rfl := RunEvent.took.inj event
    obtain rfl : answer = some (.ok message) := same
    exact (holds.taken (congrArg Prod.fst answers)).1
  | post recipient other => cases List.mem_singleton.mp took
  | _ => cases took

theorem possible (answers : m.Answers c answer m') : c.possible answer := by
  have every : m.Hold fun _ => True := fun _ _ _ _ => trivial
  cases c with
  | post recipient message => exact answers.1
  | wait worker a timeout =>
    rintro message rfl
    rcases answers with found | ⟨_, impossible⟩
    · exact (every.taken (congrArg Prod.fst found)).2
    · cases impossible
  | poll worker a =>
    rintro message rfl
    exact (every.taken (congrArg Prod.fst answers)).2
  | _ => trivial

/-- Only a post puts a message in. -/
theorem hold (holds : m.Hold P) (answers : m.Answers c answer m')
    (new : ∀ recipient message, c = .post recipient message → P message) : m'.Hold P := by
  cases c with
  | post recipient message =>
    obtain ⟨_, rfl⟩ := answers
    exact holds.post recipient (new recipient message rfl)
  | wait worker a timeout =>
    rcases answers with found | ⟨found, _⟩
    · exact holds.take found
    · exact holds.take found
  | poll worker a => exact holds.take answers
  | prune worker counter => exact holds.prune answers
  | _ =>
    obtain rfl : m' = m := answers
    exact holds

end Mailboxes.Answers

/-- A crew answers in this way, or leaves a call without an answer. -/
theorem Crew.answer_answers {c : RunCall} {isOver : Bool} {n n' : Network} {p p' : Premises}
    {answer : c.Answer} (answered : Crew.answer c isOver n p = (some answer, n', p')) :
    p.mailboxes.Answers c answer p'.mailboxes := by
  cases c with
  | wait worker a timeout =>
    cases found : p.mailboxes.take worker a with
    | mk result mailboxes =>
      simp only [Crew.answer, found] at answered
      obtain rfl : mailboxes = p'.mailboxes := congrArg (fun r => r.2.2.mailboxes) answered
      replace answered := congrArg Prod.fst answered
      cases result with
      | some result => exact .inl (found.trans (congrArg (·, _) answered))
      | none =>
        refine .inr ⟨found, ?_⟩
        cases isOver with
        | true => exact (Option.some.inj answered).symm
        | false => cases answered
  | stall => cases answer
  | pause span =>
    obtain rfl : p = p' := congrArg (fun result => result.2.2) answered
    rfl
  | post recipient message =>
    cases answered
    exact ⟨rfl, rfl⟩
  | _ =>
    cases answered
    rfl

/-- A call that a crew leaves without an answer has at most thrown stale messages away. -/
theorem Crew.answer_none {c : RunCall} {isOver : Bool} {n n' : Network} {p p' : Premises}
    (waits : Crew.answer c isOver n p = (none, n', p')) : p'.mailboxes = p.mailboxes ∨
      ∃ owner a timeout, c = .wait owner a timeout ∧ p.mailboxes.take owner a = (none, p'.mailboxes) := by
  cases c with
  | wait owner a timeout =>
    cases found : p.mailboxes.take owner a with
    | mk result mailboxes =>
      simp only [Crew.answer, found] at waits
      obtain rfl : mailboxes = p'.mailboxes := congrArg (fun r => r.2.2.mailboxes) waits
      replace waits := congrArg Prod.fst waits
      cases result with
      | some result => cases waits
      | none => exact .inr ⟨owner, a, timeout, rfl, found⟩
  | pause span => exact .inl (congrArg (fun r => r.2.2.mailboxes) waits).symm
  | stall => exact .inl (congrArg (fun r => r.2.2.mailboxes) waits).symm
  | _ => cases waits

end Sequencer
