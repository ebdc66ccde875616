import Mathlib.Data.List.Perm.Subperm
import Sequencer.Barrier.Mailbox

/-!
What comes out of mailboxes after any history of deliveries, looks and prunings. A wait looks in the same way, once at
the beginning and again whenever something has come.

A look finds the first message of the awaited sender and event that is not stale. It takes that message out with the
stale ones before it and leaves all else in its order, so that of all that came in nothing is handed out twice.
-/
namespace Sequencer

namespace Awaited
variable {a : Awaited} {box before after : List Message} {m m' : Message}

/-- A message of the sender and event whose counter is not below the awaited one. -/
def Admits (a : Awaited) (m : Message) : Prop :=
  m.sender = a.sender ∧ m.event = a.event ∧ a.counter ≤ m.counter

/-- A message of the sender and event with a smaller counter. -/
def isStale (a : Awaited) (m : Message) : Bool := a.isFrom m && m.counter < a.counter

/-- The first admitted message of a mailbox, with what stands before and after it. -/
structure First (a : Awaited) (box before : List Message) (m : Message) (after : List Message) : Prop where
  split : box = before ++ m :: after
  admitted : a.Admits m
  skipped : ∀ other ∈ before, ¬a.Admits other

/-- What a look answers, and what it leaves in the mailbox. -/
structure Law (a : Awaited) (box : List Message) (answer : Option (Except BarrierError Message))
    (rest : List Message) : Prop where
  handedOut : ∀ m, answer = some (.ok m) ↔
    ∃ before after, a.First box before m after ∧ m.counter = a.counter ∧ m.ok = true
  peerFailed : answer = some (.error (.peerFailed a.sender a.event)) ↔
    ∃ before m after, a.First box before m after ∧ m.counter = a.counter ∧ m.ok = false
  mismatched : ∀ actual, answer = some (.error (.counterMismatch a.event a.counter actual)) ↔
    ∃ before m after, a.First box before m after ∧ a.counter < m.counter ∧ m.counter = actual
  noOther : ∀ e, answer = some (.error e) →
    e = .peerFailed a.sender a.event ∨ ∃ actual, e = .counterMismatch a.event a.counter actual
  nothing : answer = none ↔ ∀ m ∈ box, ¬a.Admits m
  found : ∀ before m after, a.First box before m after →
    rest = (before.filter fun other => !a.isStale other) ++ after
  missing : (∀ m ∈ box, ¬a.Admits m) → rest = box.filter fun other => !a.isStale other

theorem admits_iff : a.Admits m ↔ a.isFrom m = true ∧ ¬m.counter < a.counter := by
  simp only [Admits, isFrom, Bool.and_eq_true, beq_iff_eq, BitVec.not_lt, and_assoc]

theorem isStale_iff : a.isStale m = true ↔ a.isFrom m = true ∧ m.counter < a.counter := by
  simp only [isStale, Bool.and_eq_true, decide_eq_true_eq]

/-- Either nothing is admitted or there is a first such message. -/
theorem first_or_none (a : Awaited) (box : List Message) :
    (∀ m ∈ box, ¬a.Admits m) ∨ ∃ before m after, a.First box before m after := by
  induction box with
  | nil => exact .inl (by simp)
  | cons m rest ih =>
    by_cases here : a.Admits m
    · exact .inr ⟨[], m, rest, rfl, here, by simp⟩
    · rcases ih with absent | ⟨before, found, after, split, admitted, skipped⟩
      · exact .inl (List.forall_mem_cons.mpr ⟨here, absent⟩)
      · exact .inr ⟨m :: before, found, after, congrArg (m :: ·) split, admitted,
          List.forall_mem_cons.mpr ⟨here, skipped⟩⟩

/-! ### The judgement of the message that is found -/

theorem judge_eq_ok_iff : a.judge m = .ok m' ↔ m' = m ∧ m.counter = a.counter ∧ m.ok = true := by
  unfold judge
  by_cases counter : m.counter = a.counter
  · cases good : m.ok <;> simp [counter, eq_comm]
  · simp [counter]

theorem judge_eq_peerFailed_iff :
    a.judge m = .error (.peerFailed a.sender a.event) ↔ m.counter = a.counter ∧ m.ok = false := by
  unfold judge
  by_cases counter : m.counter = a.counter
  · cases good : m.ok <;> simp [counter]
  · simp [counter]

theorem judge_eq_mismatch_iff {actual : Word} (admitted : a.Admits m) :
    a.judge m = .error (.counterMismatch a.event a.counter actual) ↔ a.counter < m.counter ∧ m.counter = actual := by
  have later : a.counter < m.counter ↔ m.counter ≠ a.counter := by
    have := admitted.2.2
    rw [BitVec.lt_def, Ne, ← BitVec.toNat_inj]
    rw [BitVec.le_def] at this
    omega
  rw [later]
  unfold judge
  by_cases counter : m.counter = a.counter
  · cases good : m.ok <;> simp [counter]
  · simp [counter]

theorem judge_error {e : BarrierError} (failed : a.judge m = .error e) :
    e = .peerFailed a.sender a.event ∨ ∃ actual, e = .counterMismatch a.event a.counter actual := by
  unfold judge at failed
  split at failed
  · exact .inr ⟨_, (Except.error.inj failed).symm⟩
  · split at failed
    · exact .inl (Except.error.inj failed).symm
    · cases failed

end Awaited

/-! ### One look -/

section
open Awaited
variable {a : Awaited} {box before after : List Message} {m : Message}

theorem takeMessage_none (absent : ∀ m ∈ box, ¬a.Admits m) :
    takeMessage a box = (none, box.filter fun other => !a.isStale other) := by
  induction box with
  | nil => rfl
  | cons m rest ih =>
    obtain ⟨here, later⟩ := List.forall_mem_cons.mp absent
    rw [takeMessage, ih later, List.filter_cons]
    by_cases source : a.isFrom m
    · have stale : m.counter < a.counter := Decidable.not_not.mp fun current => here (admits_iff.mpr ⟨source, current⟩)
      have isStale : a.isStale m = true := isStale_iff.mpr ⟨source, stale⟩
      simp [source, stale, isStale]
    · have fresh : a.isStale m = false := by simp [isStale, source]
      simp [source, fresh]

theorem takeMessage_first (first : a.First box before m after) :
    takeMessage a box = (some (a.judge m), (before.filter fun other => !a.isStale other) ++ after) := by
  obtain ⟨rfl, admitted, skipped⟩ := first
  induction before with
  | nil =>
    obtain ⟨source, current⟩ := admits_iff.mp admitted
    simp [takeMessage, source, current]
  | cons other rest ih =>
    obtain ⟨here, later⟩ := List.forall_mem_cons.mp skipped
    rw [List.cons_append, takeMessage, ih later, List.filter_cons]
    by_cases source : a.isFrom other
    · have stale : other.counter < a.counter :=
        Decidable.not_not.mp fun current => here (admits_iff.mpr ⟨source, current⟩)
      have isStale : a.isStale other = true := isStale_iff.mpr ⟨source, stale⟩
      simp [source, stale, isStale]
    · have fresh : a.isStale other = false := by simp [isStale, source]
      simp [source, fresh]

theorem takeMessage_law (a : Awaited) (box : List Message) :
    a.Law box (takeMessage a box).1 (takeMessage a box).2 := by
  have found : ∀ before m after, a.First box before m after →
      (takeMessage a box).2 = (before.filter fun other => !a.isStale other) ++ after :=
    fun _ _ _ first => congrArg Prod.snd (takeMessage_first first)
  have missing : (∀ m ∈ box, ¬a.Admits m) → (takeMessage a box).2 = box.filter fun other => !a.isStale other :=
    fun absent => congrArg Prod.snd (takeMessage_none absent)
  rcases first_or_none a box with absent | ⟨before, m, after, first⟩
  · have noFirst : ∀ before m after, ¬a.First box before m after := fun before m after first =>
      absent m (by simp [first.split]) first.admitted
    refine ⟨?_, ?_, ?_, ?_, ?_, found, missing⟩ <;> rw [takeMessage_none absent]
    all_goals simp [noFirst]
    exact absent
  · have only : ∀ before' m' after', a.First box before' m' after' → a.judge m' = a.judge m := fun _ _ _ other =>
      Option.some.inj (congrArg Prod.fst ((takeMessage_first other).symm.trans (takeMessage_first first)))
    refine ⟨fun m' => ?_, ?_, fun actual => ?_, fun e failed => ?_, ?_, found, missing⟩
    all_goals rw [takeMessage_first first] at *
    · rw [Option.some.injEq]
      constructor
      · intro judged
        obtain ⟨rfl, right⟩ := judge_eq_ok_iff.mp judged
        exact ⟨before, after, first, right⟩
      · rintro ⟨before', after', first', right⟩
        exact (only _ _ _ first').symm.trans (judge_eq_ok_iff.mpr ⟨rfl, right⟩)
    · rw [Option.some.injEq]
      constructor
      · intro judged
        exact ⟨before, m, after, first, judge_eq_peerFailed_iff.mp judged⟩
      · rintro ⟨before', m', after', first', right⟩
        exact (only _ _ _ first').symm.trans (judge_eq_peerFailed_iff.mpr right)
    · rw [Option.some.injEq]
      constructor
      · intro judged
        exact ⟨before, m, after, first, (judge_eq_mismatch_iff first.admitted).mp judged⟩
      · rintro ⟨before', m', after', first', right⟩
        exact (only _ _ _ first').symm.trans ((judge_eq_mismatch_iff first'.admitted).mpr right)
    · exact judge_error (Option.some.inj failed)
    · simp only [reduceCtorEq, false_iff, not_forall, not_not]
      exact ⟨m, by simp [first.split], first.admitted⟩

/-- A message that is handed out was there once more than it is afterwards. -/
theorem takeMessage_subperm (a : Awaited) (box : List Message) :
    (takeMessage a box).2.Subperm box ∧
      ∀ m, (takeMessage a box).1 = some (.ok m) → (m :: (takeMessage a box).2).Subperm box := by
  rcases first_or_none a box with absent | ⟨before, m, after, first⟩
  · rw [takeMessage_none absent]
    exact ⟨List.filter_sublist.subperm, by simp⟩
  · have kept : (before.filter fun other => !a.isStale other).Sublist before := List.filter_sublist
    rw [takeMessage_first first, first.split]
    constructor
    · exact (kept.append (List.sublist_cons_self m after)).subperm
    · rintro m' answered
      obtain ⟨rfl, _⟩ := judge_eq_ok_iff.mp (Option.some.inj answered)
      exact List.perm_middle.symm.subperm.trans (kept.append (List.Sublist.refl _)).subperm

end

/-! ### Calls on the mailboxes -/

namespace Mailboxes
variable {m : Mailboxes} {name : String}

theorem pending_insert (box : List Message) (other : String) :
    Mailboxes.pending ⟨m.boxes.insert name box⟩ other = if other = name then box else m.pending other := by
  unfold pending
  rw [Keyed.get?_insert]
  split <;> rfl

end Mailboxes

/-- A call on the mailboxes of all workers. -/
inductive MailCall where
  | deliver (mailbox : String) (message : Message)
  | look (worker : String) (a : Awaited)
  | prune (worker : String) (counter : Word)

namespace MailCall
variable {m : Mailboxes}

/-- The mailbox that a call is about. -/
def mailbox : MailCall → String
  | deliver mailbox _ => mailbox
  | look worker _ => Mailboxes.nameOf worker
  | prune worker _ => Mailboxes.nameOf worker

/-- The mailboxes after the call. -/
def after (m : Mailboxes) : MailCall → Mailboxes
  | deliver mailbox message => m.deliver mailbox message
  | look worker a => (m.take worker a).2
  | prune worker counter => (m.prune worker counter).2

/-- What the call puts into a mailbox. -/
def arriving (box : String) : MailCall → List Message
  | deliver mailbox message => if mailbox = box then [message] else []
  | _ => []

/-- What the call hands out of a mailbox. -/
def handedOut (m : Mailboxes) (box : String) : MailCall → List Message
  | look worker a =>
    match (m.take worker a).1 with
    | some (.ok message) => if Mailboxes.nameOf worker = box then [message] else []
    | _ => []
  | _ => []

/-- What a call may do: nothing to other mailboxes, and to its own what its kind says. -/
def Lawful (m : Mailboxes) (c : MailCall) : Prop :=
  (∀ box, box ≠ c.mailbox → (c.after m).pending box = m.pending box) ∧
  match c with
  | deliver mailbox message => (m.deliver mailbox message).pending mailbox = m.pending mailbox ++ [message]
  | look worker a =>
    let box := Mailboxes.nameOf worker
    a.Law (m.pending box) (m.take worker a).1 ((m.take worker a).2.pending box)
  | prune worker counter =>
    let box := Mailboxes.nameOf worker
    (m.prune worker counter).1 = ((m.pending box).filter fun message => message.counter < counter).length ∧
      (m.prune worker counter).2.pending box = (m.pending box).filter fun message => counter ≤ message.counter

theorem pending_after_other (c : MailCall) {box : String} (other : box ≠ c.mailbox) :
    (c.after m).pending box = m.pending box := by
  cases c <;> exact (Mailboxes.pending_insert _ box).trans (if_neg other)

theorem pending_after_look (worker : String) (a : Awaited) :
    (m.take worker a).2.pending (Mailboxes.nameOf worker) = (takeMessage a (m.pending (Mailboxes.nameOf worker))).2 :=
  (Mailboxes.pending_insert _ _).trans (if_pos rfl)

theorem pending_after_prune (worker : String) (counter : Word) :
    (m.prune worker counter).2.pending (Mailboxes.nameOf worker) =
      (m.pending (Mailboxes.nameOf worker)).filter fun message => !(message.counter < counter) :=
  (Mailboxes.pending_insert _ _).trans (if_pos rfl)

theorem lawful (m : Mailboxes) (c : MailCall) : c.Lawful m := by
  refine ⟨fun box other => c.pending_after_other other, ?_⟩
  cases c with
  | deliver mailbox message => exact (Mailboxes.pending_insert _ _).trans (if_pos rfl)
  | look worker a =>
    dsimp only
    rw [pending_after_look]
    exact takeMessage_law a _
  | prune worker counter =>
    have split := List.length_eq_length_filter_add (l := m.pending (Mailboxes.nameOf worker))
      fun message => decide (message.counter < counter)
    refine ⟨?_, (pending_after_prune worker counter).trans ?_⟩
    · simp only [Mailboxes.prune]
      omega
    · simp only [← BitVec.not_lt, decide_not]

/-- What a call hands out of a mailbox and what it leaves there was there before or comes in with it. -/
theorem conserves (m : Mailboxes) (c : MailCall) (box : String) :
    (c.handedOut m box ++ (c.after m).pending box).Subperm (m.pending box ++ c.arriving box) := by
  by_cases own : box = c.mailbox
  · subst own
    cases c with
    | deliver mailbox message =>
      have left : (m.deliver mailbox message).pending mailbox = m.pending mailbox ++ [message] :=
        (lawful m (.deliver mailbox message)).2
      simp only [handedOut, after, arriving, MailCall.mailbox, left, if_pos, List.nil_append]
      exact List.Subperm.refl _
    | look worker a =>
      obtain ⟨kept, taken⟩ := takeMessage_subperm a (m.pending (Mailboxes.nameOf worker))
      simp only [handedOut, after, arriving, MailCall.mailbox, pending_after_look, if_pos, List.append_nil]
      split
      · rename_i message answered
        exact taken message answered
      · exact kept
    | prune worker counter =>
      simp only [handedOut, after, arriving, MailCall.mailbox, pending_after_prune, List.append_nil, List.nil_append]
      exact List.filter_sublist.subperm
  · have nothing : c.handedOut m box = [] := by
      cases c with
      | look worker a =>
        simp only [handedOut]
        split
        · exact if_neg fun same => own same.symm
        · rfl
      | _ => rfl
    rw [nothing, c.pending_after_other own, List.nil_append]
    exact (List.sublist_append_left _ _).subperm

end MailCall

/-! ### Any history -/

namespace Mailboxes

/-- The mailboxes after a history of calls. -/
def after (m : Mailboxes) (history : List MailCall) : Mailboxes := history.foldl (fun m c => c.after m) m

/-- What came into a mailbox in the course of a history. -/
def arrived (box : String) (history : List MailCall) : List Message := history.flatMap fun c => c.arriving box

/-- What was handed out of a mailbox in the course of a history. -/
def handedOut (m : Mailboxes) (box : String) : List MailCall → List Message
  | [] => []
  | c :: rest => c.handedOut m box ++ (c.after m).handedOut box rest

theorem history_conserves (m : Mailboxes) (history : List MailCall) (box : String) :
    (m.handedOut box history ++ (m.after history).pending box).Subperm (m.pending box ++ arrived box history) := by
  induction history generalizing m with
  | nil =>
    simp only [handedOut, after, arrived, List.foldl_nil, List.flatMap_nil, List.nil_append, List.append_nil]
    exact List.Subperm.refl _
  | cons c rest ih =>
    have later := (List.subperm_append_left (c.handedOut m box)).mpr (ih (c.after m))
    have here := (List.subperm_append_right (arrived box rest)).mpr (c.conserves m box)
    simp only [List.append_assoc] at later here
    have joined := later.trans here
    simpa only [handedOut, after, arrived, List.foldl_cons, List.flatMap_cons, List.append_assoc] using joined

/-- After any history, from any content, every call keeps to its law: a look to what it awaits, a pruning to its counter,
and both to their own mailbox. What a mailbox has handed out, together with what it still holds, is part of what
it held in the beginning and what came in since, each message counted as often as it is there. -/
theorem mailbox_laws (m : Mailboxes) (history : List MailCall) :
    (∀ c : MailCall, c.Lawful (m.after history)) ∧
      ∀ box, (m.handedOut box history ++ (m.after history).pending box).Subperm
        (m.pending box ++ arrived box history) :=
  ⟨fun c => c.lawful _, fun box => m.history_conserves history box⟩

end Mailboxes

end Sequencer
