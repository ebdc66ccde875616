import Sequencer.Proofs.ProgramLogic

/-!
Runs of a program with every call and its answer.

The run of a program that is made of parts falls into runs of the parts, so that a trace can be read
along the program. What `wp` says of every path holds of every run.
-/
namespace Sequencer

/-- A call with its answer. -/
abbrev Move (I : Interface) : Type := (c : I.Call) × I.Answer c

abbrev Trace (I : Interface) : Type := List (Move I)

namespace Program
variable {I : Interface} {σ α β : Type} {c : I.Call} {next : I.Answer c → Program I α}
  {p rest : Program I α} {trace : Trace I}

/-- What may be left of a program after these calls with these answers. -/
inductive Follows : Program I α → Trace I → Program I α → Prop
  | stay (p : Program I α) : Follows p [] p
  | move {c : I.Call} {next : I.Answer c → Program I α} {trace : Trace I} {rest : Program I α}
      (answer : I.Answer c) (later : Follows (next answer) trace rest) :
      Follows (call c next) (⟨c, answer⟩ :: trace) rest

theorem Follows.snoc (follows : p.Follows trace (call c next)) (answer : I.Answer c) :
    p.Follows (trace ++ [⟨c, answer⟩]) (next answer) := by
  generalize left : call c next = q at follows
  induction follows with
  | stay p =>
    subst left
    exact .move answer (.stay _)
  | move earlier _ ih => exact .move earlier (ih left)

/-- A whole run with its result. -/
def Runs (p : Program I α) (trace : Trace I) (result : α) : Prop := p.Follows trace (done result)

theorem runs_done {a b : α} : (done a : Program I α).Runs trace b ↔ trace = [] ∧ a = b := by
  constructor
  · intro runs
    cases runs
    exact ⟨rfl, rfl⟩
  · rintro ⟨rfl, rfl⟩
    exact .stay _

theorem runs_call {b : α} : (call c next).Runs trace b ↔
    ∃ answer later, trace = ⟨c, answer⟩ :: later ∧ (next answer).Runs later b := by
  constructor
  · intro runs
    cases runs with
    | move answer later => exact ⟨answer, _, rfl, later⟩
  · rintro ⟨answer, later, rfl, runs⟩
    exact .move answer runs

theorem runs_bind {f : α → Program I β} {b : β} : (p.bind f).Runs trace b ↔
    ∃ first second a, trace = first ++ second ∧ p.Runs first a ∧ (f a).Runs second b := by
  induction p generalizing trace with
  | done a =>
    rw [done_bind]
    constructor
    · exact fun runs => ⟨[], trace, a, rfl, .stay _, runs⟩
    · rintro ⟨first, second, a', rfl, ran, runs⟩
      obtain ⟨rfl, rfl⟩ := runs_done.mp ran
      exact runs
  | call c next ih =>
    rw [call_bind, runs_call]
    constructor
    · rintro ⟨answer, later, rfl, runs⟩
      obtain ⟨first, second, a, rfl, ran, runs⟩ := (ih answer).mp runs
      exact ⟨_, second, a, rfl, .move answer ran, runs⟩
    · rintro ⟨first, second, a, rfl, ran, runs⟩
      obtain ⟨answer, later, rfl, goesOn⟩ := runs_call.mp ran
      exact ⟨answer, _, rfl, (ih answer).mpr ⟨later, second, a, rfl, goesOn, runs⟩⟩

/-- The answers decide how a run goes: of two runs that agree as far as both go, neither goes further. -/
theorem Runs.unique {first second left right : Trace I} {a b : α} (one : p.Runs first a) (two : p.Runs second b)
    (agree : first ++ left = second ++ right) : first = second ∧ a = b := by
  induction p generalizing first second with
  | done result =>
    obtain ⟨rfl, rfl⟩ := runs_done.mp one
    obtain ⟨rfl, rfl⟩ := runs_done.mp two
    exact ⟨rfl, rfl⟩
  | call c next ih =>
    obtain ⟨answer, later, rfl, goesOn⟩ := runs_call.mp one
    obtain ⟨answer', later', rfl, goesOn'⟩ := runs_call.mp two
    rw [List.cons_append, List.cons_append] at agree
    obtain ⟨same, onward⟩ := List.cons.inj agree
    cases same
    obtain ⟨rfl, rfl⟩ := ih answer goesOn goesOn' onward
    exact ⟨rfl, rfl⟩

/-- What a watch has seen of a run satisfies the postcondition. -/
theorem wp_runs {W : Watch I σ} {Q : α → σ → Prop} {s : σ} {a : α} (holds : p.wp W Q s)
    (possible : ∀ move ∈ trace, W.possible move.1 move.2) (runs : p.Runs trace a) :
    Q a (trace.foldl (fun s move => W.see s move.1 move.2) s) := by
  induction p generalizing trace s with
  | done b =>
    obtain ⟨rfl, rfl⟩ := runs_done.mp runs
    exact holds
  | call c next ih =>
    obtain ⟨answer, later, rfl, goesOn⟩ := runs_call.mp runs
    have here := (holds answer (possible _ List.mem_cons_self)).2
    have after := ih answer here (fun move member => possible move (List.mem_cons_of_mem _ member)) goesOn
    exact after

/-- Whatever was called so far was lawful when it was called. -/
theorem wp_lawful {W : Watch I σ} {Q : α → σ → Prop} {s : σ} (holds : p.wp W Q s)
    (possible : ∀ move ∈ trace, W.possible move.1 move.2) (follows : p.Follows trace rest) :
    ∀ move ∈ trace, ∃ s, W.lawful s move.1 move.2 := by
  induction follows generalizing s with
  | stay p => simp
  | @move c next trace rest answer _ ih =>
    obtain ⟨lawful, onward⟩ := holds answer (possible _ List.mem_cons_self)
    intro move member
    rcases List.mem_cons.mp member with rfl | member
    · exact ⟨s, lawful⟩
    · exact ih onward (fun move member => possible move (List.mem_cons_of_mem _ member)) move member

end Program

namespace Task
variable {I : Interface} {ε τ α β : Type} {m : Task I ε τ α} {f : α → Task I ε τ β} {t t' : τ}
  {trace : Trace I}

/-- A whole run of a task from one state to another. -/
def Runs (m : Task I ε τ α) (t : τ) (trace : Trace I) (r : Except ε α) (t' : τ) : Prop :=
  (m.run.run t).Runs trace (r, t')

theorem runs_pure {a : α} {r : Except ε α} :
    Runs (pure a : Task I ε τ α) t trace r t' ↔ trace = [] ∧ r = .ok a ∧ t' = t := by
  refine Program.runs_done.trans (and_congr_right fun _ => ?_)
  rw [Prod.mk.injEq]
  exact and_congr eq_comm eq_comm

theorem runs_throw {e : ε} {r : Except ε α} :
    Runs (throw e : Task I ε τ α) t trace r t' ↔ trace = [] ∧ r = .error e ∧ t' = t := by
  refine Program.runs_done.trans (and_congr_right fun _ => ?_)
  rw [Prod.mk.injEq]
  exact and_congr eq_comm eq_comm

theorem runs_bind {r : Except ε β} : Runs (m >>= f) t trace r t' ↔
    (∃ first second a mid, trace = first ++ second ∧ Runs m t first (.ok a) mid ∧
      Runs (f a) mid second r t') ∨ ∃ e, r = .error e ∧ Runs m t trace (.error e) t' := by
  refine Program.runs_bind.trans ?_
  constructor
  · rintro ⟨first, second, ⟨a | e, mid⟩, rfl, ran, runs⟩
    · obtain ⟨rfl, same⟩ := Program.runs_done.mp runs
      cases same
      rw [List.append_nil]
      exact .inr ⟨_, rfl, ran⟩
    · exact .inl ⟨first, second, _, mid, rfl, ran, runs⟩
  · rintro (⟨first, second, a, mid, rfl, ran, runs⟩ | ⟨e, rfl, ran⟩)
    · exact ⟨first, second, (.ok a, mid), rfl, ran, runs⟩
    · exact ⟨trace, [], (.error e, t'), (List.append_nil _).symm, ran, .stay _⟩

/-- A run that agrees with a run of its first part, as far as both go, goes on after it. -/
theorem Runs.after {r : Except ε β} {first left right : Trace I} {a : α} {mid : τ}
    (runs : Runs (m >>= f) t trace r t') (ran : Runs m t first (.ok a) mid)
    (agree : trace ++ left = first ++ right) :
    ∃ second, trace = first ++ second ∧ second ++ left = right ∧ Runs (f a) mid second r t' := by
  rcases runs_bind.mp runs with ⟨before, second, a', mid', rfl, ran', goesOn⟩ | ⟨e, rfl, failed⟩
  · rw [List.append_assoc] at agree
    obtain ⟨rfl, same⟩ := Program.Runs.unique ran' ran agree
    cases same
    exact ⟨second, rfl, List.append_cancel_left agree, goesOn⟩
  · cases (Program.Runs.unique failed ran agree).2

theorem Runs.after_error {r : Except ε β} {first left right : Trace I} {e : ε} {mid : τ}
    (runs : Runs (m >>= f) t trace r t') (failed : Runs m t first (.error e) mid)
    (agree : trace ++ left = first ++ right) : r = .error e := by
  have whole : Runs (m >>= f) t first (.error e) mid := runs_bind.mpr (.inr ⟨e, rfl, failed⟩)
  exact (Prod.mk.inj (Program.Runs.unique runs whole agree).2).1

theorem runs_tryCatch {handler : ε → Task I ε τ α} {r : Except ε α} :
    Runs (tryCatch m handler) t trace r t' ↔ (∃ a, r = .ok a ∧ Runs m t trace (.ok a) t') ∨
      ∃ first second e mid, trace = first ++ second ∧ Runs m t first (.error e) mid ∧
        Runs (handler e) mid second r t' := by
  refine Program.runs_bind.trans ?_
  constructor
  · rintro ⟨first, second, ⟨a | e, mid⟩, rfl, ran, runs⟩
    · exact .inr ⟨first, second, _, mid, rfl, ran, runs⟩
    · obtain ⟨rfl, same⟩ := Program.runs_done.mp runs
      cases same
      rw [List.append_nil]
      exact .inl ⟨_, rfl, ran⟩
  · rintro (⟨a, rfl, ran⟩ | ⟨first, second, e, mid, rfl, ran, runs⟩)
    · exact ⟨trace, [], (.ok a, t'), (List.append_nil _).symm, ran, .stay _⟩
    · exact ⟨first, second, (.error e, mid), rfl, ran, runs⟩

theorem runs_lift {p : Program I α} {r : Except ε α} :
    Runs (ExceptT.lift (StateT.lift p) : Task I ε τ α) t trace r t' ↔
      ∃ a, r = .ok a ∧ t' = t ∧ p.Runs trace a := by
  have lifted : Runs (ExceptT.lift (StateT.lift p) : Task I ε τ α) t trace r t' ↔
      ((p.bind fun a => .done (a, t)).bind fun out => .done (.ok out.1, out.2)).Runs trace (r, t') := Iff.rfl
  rw [lifted, Program.bind_assoc, Program.runs_bind]
  constructor
  · rintro ⟨first, second, a, rfl, ran, ended⟩
    obtain ⟨rfl, same⟩ := Program.runs_done.mp ended
    cases same
    rw [List.append_nil]
    exact ⟨a, rfl, rfl, ran⟩
  · rintro ⟨a, rfl, rfl, ran⟩
    exact ⟨trace, [], a, (List.append_nil _).symm, ran, .stay _⟩

theorem runs_ask {c : I.Call} {r : Except ε (I.Answer c)} :
    Runs (ExceptT.lift (StateT.lift (Program.ask c)) : Task I ε τ (I.Answer c)) t trace r t' ↔
      ∃ answer, trace = [⟨c, answer⟩] ∧ r = .ok answer ∧ t' = t := by
  rw [runs_lift]
  constructor
  · rintro ⟨answer, rfl, rfl, ran⟩
    obtain ⟨_, later, rfl, ended⟩ := Program.runs_call.mp ran
    obtain ⟨rfl, rfl⟩ := Program.runs_done.mp ended
    exact ⟨_, rfl, rfl, rfl⟩
  · rintro ⟨answer, rfl, rfl, rfl⟩
    exact ⟨answer, rfl, rfl, .move answer (.stay _)⟩

theorem runs_get {f : τ → Task I ε τ β} {r : Except ε β} :
    Runs (get >>= f) t trace r t' ↔ Runs (f t) t trace r t' := Iff.rfl

theorem runs_set {f : PUnit → Task I ε τ β} {mid : τ} {r : Except ε β} :
    Runs (set mid >>= f) t trace r t' ↔ Runs (f ⟨⟩) mid trace r t' := Iff.rfl

theorem runs_modify {f : PUnit → Task I ε τ β} {g : τ → τ} {r : Except ε β} :
    Runs (modify g >>= f) t trace r t' ↔ Runs (f ⟨⟩) (g t) trace r t' := Iff.rfl

theorem runs_liftM {result : Except ε α} {r : Except ε α} :
    Runs (liftM result : Task I ε τ α) t trace r t' ↔ trace = [] ∧ r = result ∧ t' = t := by
  cases result with
  | ok a => exact runs_pure
  | error e => exact runs_throw

/-- A result that is there already. -/
theorem runs_result {result : Except ε α} {r : Except ε β} :
    Runs ((liftM result : Task I ε τ α) >>= f) t trace r t' ↔
      (∃ a, result = .ok a ∧ Runs (f a) t trace r t') ∨
      ∃ e, result = .error e ∧ trace = [] ∧ r = .error e ∧ t' = t := by
  cases result with
  | ok a =>
    constructor
    · exact fun runs => .inl ⟨a, rfl, runs⟩
    · rintro (⟨_, same, runs⟩ | ⟨_, impossible, _⟩)
      · rw [Except.ok.inj same]
        exact runs
      · cases impossible
  | error e =>
    constructor
    · exact fun runs => .inr ⟨e, rfl, runs_throw.mp runs⟩
    · rintro (⟨_, impossible, _⟩ | ⟨_, same, ended⟩)
      · cases impossible
      · rw [← Except.error.inj same] at ended
        exact runs_throw.mpr ended

end Task

end Sequencer
