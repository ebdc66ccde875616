import Mathlib.Logic.Relation
import Sequencer.Proofs.Mail
import Sequencer.Proofs.Traces

/-!
Several programs side by side, in any order: each makes its calls one at a time, on shared mailboxes and
a shared flag, while boards and clocks answer as they like. A crew runs in one of these ways.
-/
namespace Sequencer

/-- What the programs of a crew share beside the clock. -/
structure Shared where
  mailboxes : Mailboxes := .empty
  isAborted : Bool := false

def Premises.shared (p : Premises) : Shared := ⟨p.mailboxes, p.isAborted⟩

/-- How a call reads or raises the flag. A raised flag may be seen late. -/
def RunCall.Flags (flag : Bool) : (c : RunCall) → c.Answer → Bool → Prop
  | isAborted, seen, flag' => (seen = true → flag = true) ∧ flag' = flag
  | abortAll, _, flag' => flag' = true
  | _, _, flag' => flag' = flag

/-- The answers that a call can have, each with what it leaves to all. -/
structure Shared.Answers (x : Shared) (c : RunCall) (answer : c.Answer) (x' : Shared) : Prop where
  mail : x.mailboxes.Answers c answer x'.mailboxes
  flag : c.Flags x.isAborted answer x'.isAborted

/-- A program with its calls so far and what is left of it. -/
structure Chair (α : Type) where
  program : Program runInterface α
  trace : Trace runInterface
  rest : Program runInterface α
  follows : program.Follows trace rest

namespace Chair
variable {α : Type}

def new (program : Program runInterface α) : Chair α := ⟨program, [], program, .stay program⟩

/-- The chair after one more call. -/
def after (chair : Chair α) {c : RunCall} {next : c.Answer → Program runInterface α}
    (calls : chair.rest = .call c next) (answer : c.Answer) : Chair α where
  program := chair.program
  trace := chair.trace ++ [⟨c, answer⟩]
  rest := next answer
  follows := by
    have follows := chair.follows
    rw [calls] at follows
    exact follows.snoc answer

end Chair

structure Round (α : Type) where
  chairs : List (Chair α)
  shared : Shared

namespace Round
variable {α : Type}

def begin (programs : List (Program runInterface α)) (shared : Shared) : Round α :=
  ⟨programs.map Chair.new, shared⟩

inductive Step (x : Round α) : Round α → Prop where
  /-- A call is answered. -/
  | act {before later : List (Chair α)} {chair : Chair α} {c : RunCall} {shared : Shared}
      {next : c.Answer → Program runInterface α} (answer : c.Answer)
      (chairs : x.chairs = before ++ chair :: later) (calls : chair.rest = .call c next)
      (answers : x.shared.Answers c answer shared) :
      Step x ⟨before ++ chair.after calls answer :: later, shared⟩
  /-- A program that waits in vain throws stale messages away. -/
  | linger {chair : Chair α} {owner : String} {a : Awaited} {timeout : Nat} {mailboxes : Mailboxes}
      {next : (RunCall.wait owner a timeout).Answer → Program runInterface α} (member : chair ∈ x.chairs)
      (calls : chair.rest = .call (.wait owner a timeout) next)
      (vain : x.shared.mailboxes.take owner a = (none, mailboxes)) :
      Step x ⟨x.chairs, { x.shared with mailboxes }⟩

/-- What becomes of a round in any number of steps. -/
abbrev Reaches : Round α → Round α → Prop := Relation.ReflTransGen Step

variable {x y : Round α}

theorem Step.programs (step : Step x y) : y.chairs.map Chair.program = x.chairs.map Chair.program := by
  cases step with
  | act answer chairs calls answers =>
    rw [chairs, List.map_append, List.map_append]
    rfl
  | linger member calls vain => rfl

theorem Reaches.programs (reaches : Reaches x y) :
    y.chairs.map Chair.program = x.chairs.map Chair.program := by
  induction reaches with
  | refl => rfl
  | tail _ step ih => exact step.programs.trans ih

end Round

/-- A crew answers in this way. -/
theorem Crew.answer_shared {c : RunCall} {isOver : Bool} {n n' : Network} {p p' : Premises}
    {answer : c.Answer} (answered : Crew.answer c isOver n p = (some answer, n', p')) :
    p.shared.Answers c answer p'.shared := by
  refine ⟨Crew.answer_answers answered, ?_⟩
  cases c with
  | isAborted =>
    cases answered
    exact ⟨id, rfl⟩
  | abortAll =>
    cases answered
    rfl
  | stall => cases answer
  | _ =>
    obtain rfl : (Crew.answer _ isOver n p).2.2 = p' := congrArg (·.2.2) answered
    rfl

/-- A call without an answer leaves the flag as it is. -/
theorem Crew.answer_none_shared {c : RunCall} {isOver : Bool} {n n' : Network} {p p' : Premises}
    (waits : Crew.answer c isOver n p = (none, n', p')) : p'.shared = p.shared ∨
      ∃ owner a timeout mailboxes, c = .wait owner a timeout ∧
        p.mailboxes.take owner a = (none, mailboxes) ∧ p'.shared = { p.shared with mailboxes } := by
  have flag : p'.isAborted = p.isAborted := by
    cases c with
    | wait owner a timeout | pause span | stall =>
      obtain rfl : (Crew.answer _ isOver n p).2.2 = p' := congrArg (·.2.2) waits
      rfl
    | _ => cases waits
  have shared : p'.shared = ⟨p'.mailboxes, p.isAborted⟩ := by rw [Premises.shared, flag]
  rcases Crew.answer_none waits with same | ⟨owner, a, timeout, rfl, vain⟩
  · rw [same] at shared
    exact .inl shared
  · exact .inr ⟨owner, a, timeout, _, rfl, vain, shared⟩

namespace Crew
variable {α : Type} {x : Round α} {p p' : Premises}

/-- A program that goes on takes some steps of a round. -/
theorem advance_reaches {before later : List (Chair α)} {chair : Chair α} {due : Option Nat} {n : Network}
    {moved : Bool} {seat : Seat α} {rest : Program runInterface α}
    (chairs : x.chairs = before ++ chair :: later) (left : chair.rest = rest) (shared : x.shared = p.shared)
    (advanced : advance rest due n p = (seat, p', moved)) : ∃ chair', chair'.rest = seat.program ∧
      Round.Reaches x ⟨before ++ chair' :: later, p'.shared⟩ := by
  induction rest generalizing x chair due n p moved with
  | done a =>
    cases advanced
    exact ⟨chair, left, by rw [← chairs, ← shared]⟩
  | call c next ih =>
    unfold advance at advanced
    dsimp only at advanced
    split at advanced
    · rename_i answer n₁ p₁ answered
      cases more : advance (next answer) none n₁ p₁ with
      | mk seat' rest' =>
        obtain ⟨p₂, moved'⟩ := rest'
        rw [more] at advanced
        cases advanced
        have answers := answer_shared answered
        rw [← shared] at answers
        have step : Round.Step x ⟨before ++ chair.after left answer :: later, p₁.shared⟩ :=
          .act answer chairs left answers
        obtain ⟨chair', left', reaches⟩ :=
          ih answer (x := ⟨before ++ chair.after left answer :: later, p₁.shared⟩) rfl rfl rfl more
        exact ⟨chair', left', reaches.head step⟩
    · rename_i n₁ p₁ waits
      cases advanced
      refine ⟨chair, left, ?_⟩
      rw [← chairs]
      rcases answer_none_shared waits with same | ⟨owner, a, timeout, mailboxes, rfl, vain, same⟩
      · rw [same, ← shared]
      · have member : chair ∈ x.chairs := by simp [chairs]
        have found : x.shared.mailboxes.take owner a = (none, mailboxes) := by
          rw [shared]
          exact vain
        rw [same, ← shared]
        exact .single (.linger member left found)

theorem sweep_reaches {before chairs : List (Chair α)} {seats seats' : List (Seat α)} {moved : Bool}
    (all : x.chairs = before ++ chairs) (left : chairs.map Chair.rest = seats.map Seat.program)
    (shared : x.shared = p.shared) (swept : sweep seats p = (seats', p', moved)) :
    ∃ chairs', chairs'.map Chair.rest = seats'.map Seat.program ∧
      Round.Reaches x ⟨before ++ chairs', p'.shared⟩ := by
  induction seats generalizing x before chairs p moved seats' with
  | nil =>
    cases swept
    obtain rfl : chairs = [] := List.map_eq_nil_iff.mp left
    exact ⟨[], rfl, by rw [← all, ← shared]⟩
  | cons seat rest ih =>
    obtain ⟨chair, later, rfl, first, left⟩ := List.map_eq_cons_iff.mp left
    unfold sweep at swept
    cases advanced : advance seat.program seat.due seat.network p with
    | mk seat₁ more =>
      obtain ⟨p₁, moved₁⟩ := more
      cases others : sweep rest p₁ with
      | mk rest₁ more =>
        obtain ⟨p₂, moved₂⟩ := more
        rw [advanced] at swept
        dsimp only at swept
        rw [others] at swept
        cases swept
        obtain ⟨chair', left', reaches⟩ := advance_reaches all first shared advanced
        have chairs₁ : (⟨before ++ chair' :: later, p₁.shared⟩ : Round α).chairs =
            (before ++ [chair']) ++ later := by simp
        obtain ⟨chairs', lefts, goesOn⟩ := ih chairs₁ left rfl others
        refine ⟨chair' :: chairs', by rw [List.map_cons, List.map_cons, left', lefts], reaches.trans ?_⟩
        rw [List.append_assoc] at goesOn
        exact goesOn

theorem mapM_result? {seats : List (Seat α)} {ends : List (α × Network)}
    (ended : seats.mapM result? = some ends) : seats.map Seat.program = ends.map fun out => .done out.1 := by
  induction seats generalizing ends with
  | nil =>
    cases ended
    rfl
  | cons seat rest ih =>
    rw [List.mapM_cons] at ended
    obtain ⟨out, done, ended⟩ := Option.bind_eq_some_iff.mp ended
    obtain ⟨others, all, ended⟩ := Option.bind_eq_some_iff.mp ended
    cases ended
    have program : seat.program = .done out.1 := by
      unfold result? at done
      split at done
      · rename_i a isDone
        cases done
        exact isDone
      · cases done
    rw [List.map_cons, List.map_cons, program, ih all]

/-- A crew runs in one of the ways of its round. -/
theorem run_reaches {rounds : Nat} {seats : List (Seat α)} {ends : List (α × Network)}
    (left : x.chairs.map Chair.rest = seats.map Seat.program) (shared : x.shared = p.shared)
    (ran : run rounds seats p = some (ends, p')) : ∃ chairs,
      chairs.map Chair.rest = ends.map (fun out => .done out.1) ∧ Round.Reaches x ⟨chairs, p'.shared⟩ := by
  induction rounds generalizing x seats p with
  | zero => cases ran
  | succ rounds ih =>
    unfold run at ran
    cases swept : sweep seats p with
    | mk seats₁ more =>
      obtain ⟨p₁, moved⟩ := more
      obtain ⟨chairs, lefts, reaches⟩ := sweep_reaches (List.nil_append _).symm left shared swept
      rw [swept] at ran
      dsimp only at ran
      split at ran
      · rename_i ended
        cases ran
        exact ⟨chairs, lefts.trans (mapM_result? ended), reaches⟩
      · split at ran
        · obtain ⟨chairs', ended, goesOn⟩ := ih (x := ⟨chairs, p₁.shared⟩) lefts rfl ran
          exact ⟨chairs', ended, reaches.trans goesOn⟩
        · split at ran
          · rename_i time _
            obtain ⟨chairs', ended, goesOn⟩ :=
              ih (x := ⟨chairs, p₁.shared⟩) (p := { p₁ with now := time }) lefts rfl ran
            exact ⟨chairs', ended, reaches.trans goesOn⟩
          · cases ran

end Crew

end Sequencer
