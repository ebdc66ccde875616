/-!
Programs that ask their surroundings for something and go on with the answer.

An interface lists the calls and the type of each answer. A program says nothing about where answers
come from: `run` takes them from a function on a state, and what holds for every choice of answers
holds for every surrounding.
-/
namespace Sequencer

structure Interface where
  Call : Type
  Answer : Call → Type

inductive Program (I : Interface) (α : Type) : Type where
  | done (result : α)
  | call (c : I.Call) (next : I.Answer c → Program I α)

namespace Program
variable {I J : Interface} {α β σ : Type}

def bind : Program I α → (α → Program I β) → Program I β
  | done a, f => f a
  | call c next, f => call c fun answer => (next answer).bind f

instance : Monad (Program I) where
  pure := done
  bind := bind

@[simp] theorem done_bind (a : α) (f : α → Program I β) : (done a).bind f = f a := rfl

@[simp] theorem call_bind (c : I.Call) (next : I.Answer c → Program I α) (f : α → Program I β) :
    (call c next).bind f = call c fun answer => (next answer).bind f := rfl

theorem bind_done (p : Program I α) : p.bind done = p := by
  induction p with
  | done a => rfl
  | call c next ih => simp [ih]

theorem bind_assoc {γ : Type} (p : Program I α) (f : α → Program I β) (g : β → Program I γ) :
    (p.bind f).bind g = p.bind fun a => (f a).bind g := by
  induction p with
  | done a => rfl
  | call c next ih => simp [ih]

instance : LawfulMonad (Program I) :=
  LawfulMonad.mk' (Program I) bind_done (fun _ _ => rfl) bind_assoc

/-- Makes one call. -/
def ask (c : I.Call) : Program I (I.Answer c) := call c done

/-- A program over one interface as a program over a wider one. -/
def widen (calls : I.Call → J.Call) (answers : ∀ c, J.Answer (calls c) → I.Answer c) :
    Program I α → Program J α
  | done a => done a
  | call c next => call (calls c) fun answer => (next (answers c answer)).widen calls answers

/-- Runs a program on a state that answers every call. -/
def run (answer : (c : I.Call) → σ → I.Answer c × σ) : Program I α → σ → α × σ
  | done a, s => (a, s)
  | call c next, s =>
    let (r, s) := answer c s
    (next r).run answer s

theorem run_bind (answer : (c : I.Call) → σ → I.Answer c × σ) (p : Program I α) (f : α → Program I β)
    (s : σ) : (p.bind f).run answer s = (f (p.run answer s).1).run answer (p.run answer s).2 := by
  induction p generalizing s with
  | done a => rfl
  | call c next ih => exact ih (answer c s).1 (answer c s).2

theorem run_ask {answer : (c : I.Call) → σ → I.Answer c × σ} {c : I.Call} {s s' : σ} {a : I.Answer c}
    (answered : answer c s = (a, s')) (f : I.Answer c → Program I β) :
    (ask c >>= f).run answer s = (f a).run answer s' := by
  have step : (ask c >>= f).run answer s = (f (answer c s).1).run answer (answer c s).2 := rfl
  rw [step, answered]

/-- Runs a program on a state that may leave a call without an answer. -/
def run? (answer : (c : I.Call) → σ → Option (I.Answer c × σ)) :
    Program I α → σ → Option (α × σ)
  | done a, s => some (a, s)
  | call c next, s =>
    match answer c s with
    | some (r, s) => (next r).run? answer s
    | none => none

end Program

end Sequencer
