import Sequencer.Proofs.RunEvents

/-!
How the events of a run grow: most parts of a worker's program lead from one ready line to another and
add events of one kind only.
-/
namespace Sequencer

namespace RunEvent

/-- Requests and answers. -/
def isTalk : RunEvent → Bool
  | requested _ | answered _ => true
  | _ => false

/-- Requests and answers without starting or stopping the board. -/
def isQuiet : RunEvent → Bool
  | requested request => request.command ∉ [.start, .stop]
  | answered _ => true
  | _ => false

/-- Quiet talk, and messages that come in. -/
def isCalm : RunEvent → Bool
  | took _ => true
  | x => x.isQuiet

/-- All that a run does between its begin and its end but posting. -/
def isUnposted : RunEvent → Bool
  | took _ => true
  | x => x.isTalk

def isPost : RunEvent → Bool
  | posted _ _ => true
  | _ => false

variable {x : RunEvent}

theorem isTalk_of_isQuiet (quiet : x.isQuiet) : x.isTalk := by
  cases x <;> simp_all [isQuiet, isTalk]

theorem isCalm_of_isQuiet (quiet : x.isQuiet) : x.isCalm := by
  cases x <;> simp_all [isQuiet, isCalm]

theorem isUnposted_of_isTalk (talk : x.isTalk) : x.isUnposted := by
  cases x <;> simp_all [isTalk, isUnposted]

theorem isUnposted_of_isCalm (calm : x.isCalm) : x.isUnposted := by
  cases x <;> simp_all [isQuiet, isTalk, isCalm, isUnposted]

end RunEvent

/-- A request that had an answer. -/
def exchange (request answer : Frame) : List RunEvent := [.requested request, .answered (.ok answer)]

namespace View

/-- The view after a request that had an answer. -/
def after (v : View) (request answer : Frame) : View := ⟨.ready, v.events ++ exchange request answer⟩

/-- From one ready line to another, with new events of one kind only. -/
def Grows (kind : RunEvent → Bool) (v v' : View) : Prop :=
  v'.line = .ready ∧ ∃ new, v'.events = v.events ++ new ∧ ∀ x ∈ new, kind x

variable {kind kind' : RunEvent → Bool} {v v' v'' : View}

theorem Grows.refl (ready : v.line = .ready) : Grows kind v v :=
  ⟨ready, [], by simp, by simp⟩

theorem Grows.silent (ready : v.line = .ready) : Grows kind v (v.hear (v.line, [])) := by
  rw [v.hear_nothing]
  exact .refl ready

theorem Grows.trans (first : Grows kind v v') (second : Grows kind v' v'') : Grows kind v v'' := by
  obtain ⟨_, new, events, each⟩ := first
  obtain ⟨ready, more, events', each'⟩ := second
  refine ⟨ready, new ++ more, by rw [events', events, List.append_assoc], fun x member => ?_⟩
  rcases List.mem_append.mp member with early | late
  · exact each x early
  · exact each' x late

theorem Grows.weaken (grows : Grows kind v v') (weaker : ∀ x, kind x → kind' x) :
    Grows kind' v v' := by
  obtain ⟨ready, new, events, each⟩ := grows
  exact ⟨ready, new, events, fun x member => weaker x (each x member)⟩

theorem Grows.begins (grows : Grows kind v v') : v.events <+: v'.events := by
  obtain ⟨_, new, events, _⟩ := grows
  exact ⟨new, events.symm⟩

/-- What has happened stays. -/
theorem Grows.keeps {part : List RunEvent} (grows : Grows kind v v') (found : part <:+: v.events) :
    part <:+: v'.events := by
  obtain ⟨_, new, events, _⟩ := grows
  rw [events]
  exact found.trans (List.prefix_append _ _).isInfix

theorem after_grows {request answer : Frame} (kind_request : kind (.requested request))
    (kind_answer : kind (.answered (.ok answer))) : v.Grows kind (v.after request answer) := by
  refine ⟨rfl, exchange request answer, rfl, fun x member => ?_⟩
  simp only [exchange, List.mem_cons, List.not_mem_nil, or_false] at member
  rcases member with rfl | rfl
  · exact kind_request
  · exact kind_answer

theorem Grows.mem {x : RunEvent} (grows : Grows kind v v') (found : x ∈ v.events) : x ∈ v'.events := by
  obtain ⟨_, new, events, _⟩ := grows
  rw [events]
  exact List.mem_append_left _ found

end View

/-- A part of a program that keeps some of its state and adds events of one kind, however it ends. -/
def Task.Within {I : Interface} {ε τ κ α : Type} (W : Watch I View) (kept : τ → κ)
    (kind : RunEvent → Bool) (p : Task I ε τ α) : Prop :=
  ∀ t v, v.line = .ready → Task.wp W p (fun _ t' v' => kept t' = kept t ∧ v.Grows kind v') t v

namespace Task.Within
variable {I : Interface} {ε τ κ α β : Type} {W : Watch I View} {kept : τ → κ}
  {kind kind' : RunEvent → Bool} {p : Task I ε τ α}

theorem pure {a : α} : Within W kept kind (Pure.pure a : Task I ε τ α) := by
  intro t v ready
  exact ⟨rfl, View.Grows.refl ready⟩

theorem throw {e : ε} : Within W kept kind (MonadExceptOf.throw e : Task I ε τ α) := by
  intro t v ready
  exact ⟨rfl, View.Grows.refl ready⟩

theorem weaken (within : Within W kept kind p) (weaker : ∀ x, kind x → kind' x) :
    Within W kept kind' p := by
  intro t v ready
  exact Task.mono (within t v ready) fun r t' v' post => ⟨post.1, post.2.weaken weaker⟩

theorem bind {f : α → Task I ε τ β} (first : Within W kept kind p)
    (next : ∀ a, Within W kept kind (f a)) : Within W kept kind (p >>= f) := by
  intro t v ready
  refine Task.seq (first t v ready) (fun a t' v' post => ?_) fun e t' v' post => post
  refine Task.mono (next a t' v' post.2.1) fun r t'' v'' post' => ?_
  exact ⟨post'.1.trans post.1, post.2.trans post'.2⟩

/-- Reading the state. -/
theorem get {f : τ → Task I ε τ β} (next : ∀ t, Within W kept kind (f t)) :
    Within W kept kind (MonadState.get >>= f) := fun t v ready => next t t v ready

theorem tryCatch {handler : ε → Task I ε τ α} (body : Within W kept kind p)
    (handled : ∀ e, Within W kept kind (handler e)) :
    Within W kept kind (MonadExceptOf.tryCatch p handler) := by
  intro t v ready
  refine Task.wp_tryCatch (Task.mono (body t v ready) fun r t' v' post => ?_)
  cases r with
  | ok a => exact post
  | error e =>
    refine Task.mono (handled e t' v' post.2.1) fun r t'' v'' post' => ?_
    exact ⟨post'.1.trans post.1, post.2.trans post'.2⟩

end Task.Within

/-- `Task.Within` from one state on, with what a success comes with. -/
def Task.Reaches {I : Interface} {ε τ κ α : Type} (W : Watch I View) (kept : τ → κ)
    (kind : RunEvent → Bool) (p : Task I ε τ α) (good : α → View → Prop) (t : τ) (v : View) : Prop :=
  Task.wp W p (fun r t' v' => kept t' = kept t ∧ v.Grows kind v' ∧ ∀ a, r = .ok a → good a v') t v

namespace Task.Reaches
variable {I : Interface} {ε τ κ α β : Type} {W : Watch I View} {kept : τ → κ}
  {kind kind' : RunEvent → Bool} {p : Task I ε τ α} {good : α → View → Prop} {t : τ} {v : View}

theorem pure {a : α} (ready : v.line = .ready) (holds : good a v) :
    Reaches W kept kind (Pure.pure a : Task I ε τ α) good t v := by
  refine ⟨rfl, .refl ready, fun other same => ?_⟩
  rw [← Except.ok.inj same]
  exact holds

theorem of_within (within : Within W kept kind p) (ready : v.line = .ready) :
    Reaches W kept kind p (fun _ v' => v.Grows kind v') t v :=
  Task.mono (within t v ready) fun _ _ _ post => ⟨post.1, post.2, fun _ _ => post.2⟩

theorem throw {e : ε} (ready : v.line = .ready) :
    Reaches W kept kind (MonadExceptOf.throw e : Task I ε τ α) good t v :=
  ⟨rfl, .refl ready, fun _ impossible => by cases impossible⟩

theorem throw_bind {e : ε} {f : β → Task I ε τ α} (ready : v.line = .ready) :
    Reaches W kept kind ((MonadExceptOf.throw e : Task I ε τ β) >>= f) good t v := throw ready

theorem within (reaches : ∀ t v, v.line = .ready → ∃ good, Reaches W kept kind p good t v) :
    Within W kept kind p := by
  intro t v ready
  obtain ⟨good, reached⟩ := reaches t v ready
  exact Task.mono reached fun _ _ _ post => ⟨post.1, post.2.1⟩

theorem growing (reaches : Reaches W kept kind p good t v) :
    Reaches W kept kind p (fun a v' => v.Grows kind v' ∧ good a v') t v :=
  Task.mono reaches fun _ _ _ post => ⟨post.1, post.2.1, fun a success => ⟨post.2.1, post.2.2 a success⟩⟩

theorem weaken (reaches : Reaches W kept kind p good t v) (weaker : ∀ x, kind x → kind' x) :
    Reaches W kept kind' p good t v :=
  Task.mono reaches fun _ _ _ post => ⟨post.1, post.2.1.weaken weaker, post.2.2⟩

theorem imp {good' : α → View → Prop} (reaches : Reaches W kept kind p good t v)
    (implies : ∀ a v', good a v' → good' a v') : Reaches W kept kind p good' t v :=
  Task.mono reaches fun _ _ _ post =>
    ⟨post.1, post.2.1, fun a success => implies a _ (post.2.2 a success)⟩

theorem bind {f : α → Task I ε τ β} {good' : β → View → Prop} (first : Reaches W kept kind p good t v)
    (next : ∀ a t' v', kept t' = kept t → v.Grows kind v' → good a v' →
      Reaches W kept kind (f a) good' t' v') : Reaches W kept kind (p >>= f) good' t v := by
  refine Task.seq first ?_ ?_
  · intro a t' v' ⟨same, grows, holds⟩
    refine Task.mono (next a t' v' same grows (holds a rfl)) ?_
    intro r t'' v'' ⟨same', grows', holds'⟩
    exact ⟨same'.trans same, grows.trans grows', holds'⟩
  · intro e t' v' ⟨same, grows, _⟩
    exact ⟨same, grows, fun _ impossible => by cases impossible⟩

theorem get {f : τ → Task I ε τ α} (next : Reaches W kept kind (f t) good t v) :
    Reaches W kept kind (MonadState.get >>= f) good t v := next

theorem modify {g : τ → τ} {f : PUnit → Task I ε τ α} (keeps : kept (g t) = kept t)
    (next : Reaches W kept kind (f ⟨⟩) good (g t) v) :
    Reaches W kept kind (modify g >>= f) good t v :=
  Task.wp_modify (Task.mono next fun _ _ _ post => ⟨post.1.trans keeps, post.2⟩)

theorem result {result : Except ε α} {f : α → Task I ε τ β} {good : β → View → Prop}
    (ready : v.line = .ready) (next : ∀ a, result = .ok a → Reaches W kept kind (f a) good t v) :
    Reaches W kept kind ((liftM result : Task I ε τ α) >>= f) good t v :=
  Task.wp_result next fun _ _ => ⟨rfl, .refl ready, fun _ impossible => by cases impossible⟩

end Task.Reaches

end Sequencer
