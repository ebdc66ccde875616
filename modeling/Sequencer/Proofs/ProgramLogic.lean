import Sequencer.Program

/-!
What holds of a program whatever the answers to its calls.

A watch follows a program from call to call with a state of its own. It says which answers a call
can have, and what may not happen at a call with its answer. `wp` demands this of every call on every
path, and a postcondition of every result.
-/
namespace Sequencer

structure Watch (I : Interface) (σ : Type) where
  /-- The state after a call and its answer. -/
  see : σ → (c : I.Call) → I.Answer c → σ
  /-- The answers that a call can have. -/
  possible : (c : I.Call) → I.Answer c → Prop
  /-- What has to hold of a call and its answer. -/
  lawful : σ → (c : I.Call) → I.Answer c → Prop

namespace Program
variable {I J : Interface} {σ α β : Type} {W : Watch I σ}

/-- Every call on every path is lawful, and every result satisfies the postcondition. -/
def wp (W : Watch I σ) (Q : α → σ → Prop) : Program I α → σ → Prop
  | done a, s => Q a s
  | call c next, s => ∀ answer, W.possible c answer →
      W.lawful s c answer ∧ (next answer).wp W Q (W.see s c answer)

theorem wp_mono {Q Q' : α → σ → Prop} (weaker : ∀ a s, Q a s → Q' a s) {p : Program I α} {s : σ}
    (holds : p.wp W Q s) : p.wp W Q' s := by
  induction p generalizing s with
  | done a => exact weaker a s holds
  | call c next ih =>
    intro answer possible
    obtain ⟨lawful, rest⟩ := holds answer possible
    exact ⟨lawful, ih answer rest⟩

theorem wp_bind {Q : β → σ → Prop} {p : Program I α} {f : α → Program I β} {s : σ} :
    (p.bind f).wp W Q s ↔ p.wp W (fun a s => (f a).wp W Q s) s := by
  induction p generalizing s with
  | done a => rfl
  | call c next ih =>
    constructor
    · intro holds answer possible
      obtain ⟨lawful, rest⟩ := holds answer possible
      exact ⟨lawful, (ih answer).mp rest⟩
    · intro holds answer possible
      obtain ⟨lawful, rest⟩ := holds answer possible
      exact ⟨lawful, (ih answer).mpr rest⟩

end Program

/-- Programs that may fail and keep a state of their own, also when they fail. -/
abbrev Task (I : Interface) (ε τ α : Type) := ExceptT ε (StateT τ (Program I)) α

namespace Task
variable {I : Interface} {σ ε τ α β γ : Type} {W : Watch I σ} {t : τ} {s : σ}

/-- `wp` of a task from its state on; the postcondition also speaks about the state that is left. -/
def wp (W : Watch I σ) (m : Task I ε τ α) (Q : Except ε α → τ → σ → Prop) (t : τ) (s : σ) : Prop :=
  (m.run.run t).wp W (fun out s => Q out.1 out.2 s) s

variable {m : Task I ε τ α} {Q Q' : Except ε α → τ → σ → Prop}

theorem mono (holds : wp W m Q' t s) (weaker : ∀ r t s, Q' r t s → Q r t s) : wp W m Q t s := by
  unfold wp at holds ⊢
  exact Program.wp_mono (fun (out : Except ε α × τ) s => weaker out.1 out.2 s) holds

theorem wp_bind {f : α → Task I ε τ β} {Q : Except ε β → τ → σ → Prop}
    (first : wp W m (fun r t s => match r with
      | .ok a => wp W (f a) Q t s
      | .error e => Q (.error e) t s) t s) : wp W (m >>= f) Q t s := by
  refine Program.wp_bind.mpr (Program.wp_mono (fun out s post => ?_) first)
  obtain ⟨result, t⟩ := out
  cases result with
  | ok a => exact post
  | error e => exact post

/-- A task after another one of which a specification is known. -/
theorem seq {f : α → Task I ε τ β} {Q : Except ε β → τ → σ → Prop} (first : wp W m Q' t s)
    (next : ∀ a t s, Q' (.ok a) t s → wp W (f a) Q t s)
    (failed : ∀ e t s, Q' (.error e) t s → Q (.error e) t s) : wp W (m >>= f) Q t s := by
  refine wp_bind (mono first fun r t s post => ?_)
  cases r with
  | ok a => exact next a t s post
  | error e => exact failed e t s post

theorem wp_tryCatch {handler : ε → Task I ε τ α} {Q : Except ε α → τ → σ → Prop}
    (body : wp W m (fun r t s => match r with
      | .ok a => Q (.ok a) t s
      | .error e => wp W (handler e) Q t s) t s) : wp W (tryCatch m handler) Q t s := by
  refine Program.wp_bind.mpr (Program.wp_mono (fun out s post => ?_) body)
  obtain ⟨result, t⟩ := out
  cases result with
  | ok a => exact post
  | error e => exact post

theorem wp_get {f : τ → Task I ε τ β} {Q : Except ε β → τ → σ → Prop} (holds : wp W (f t) Q t s) :
    wp W (get >>= f) Q t s := holds

theorem wp_set {t' : τ} {f : PUnit → Task I ε τ β} {Q : Except ε β → τ → σ → Prop}
    (holds : wp W (f ⟨⟩) Q t' s) : wp W (set t' >>= f) Q t s := holds

theorem wp_modify {g : τ → τ} {f : PUnit → Task I ε τ β} {Q : Except ε β → τ → σ → Prop}
    (holds : wp W (f ⟨⟩) Q (g t) s) : wp W (modify g >>= f) Q t s := holds

/-- A result that is there already. -/
theorem wp_result {result : Except ε α} {f : α → Task I ε τ β} {Q : Except ε β → τ → σ → Prop}
    (next : ∀ a, result = .ok a → wp W (f a) Q t s)
    (failed : ∀ e, result = .error e → Q (.error e) t s) :
    wp W ((liftM result : Task I ε τ α) >>= f) Q t s := by
  cases result with
  | ok a => exact next a rfl
  | error e => exact failed e rfl

theorem wp_lift {p : Program I α} {f : α → Task I ε τ β} {Q : Except ε β → τ → σ → Prop}
    (holds : p.wp W (fun a s => wp W (f a) Q t s) s) :
    wp W ((ExceptT.lift (StateT.lift p) : Task I ε τ α) >>= f) Q t s := by
  have lifted : wp W (ExceptT.lift (StateT.lift p) : Task I ε τ α)
      (fun r t' s => ∃ a, r = .ok a ∧ t' = t ∧ wp W (f a) Q t s) t s := by
    refine Program.wp_bind.mpr (Program.wp_bind.mpr (Program.wp_mono (fun a s next => ?_) holds))
    exact ⟨a, rfl, rfl, next⟩
  refine seq lifted (fun a t' s post => ?_) fun e t' s post => ?_
  · obtain ⟨a', same, rfl, next⟩ := post
    rw [Except.ok.inj same]
    exact next
  · obtain ⟨a', impossible, _⟩ := post
    cases impossible

theorem wp_ask {c : I.Call} {f : I.Answer c → Task I ε τ β} {Q : Except ε β → τ → σ → Prop}
    (holds : ∀ answer, W.possible c answer →
      W.lawful s c answer ∧ wp W (f answer) Q t (W.see s c answer)) :
    wp W ((ExceptT.lift (StateT.lift (Program.ask c)) : Task I ε τ (I.Answer c)) >>= f) Q t s :=
  holds

end Task

end Sequencer
