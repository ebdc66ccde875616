/-!
Reading a result off a computation that succeeded.
-/
namespace Sequencer

variable {ε α β : Type}

theorem bind_success {step : Except ε α} {next : α → Except ε β} {value : β}
    (success : (step >>= next) = .ok value) : ∃ x, step = .ok x ∧ next x = .ok value := by
  cases step with
  | error e => cases success
  | ok x => exact ⟨x, rfl, success⟩

/-- Only what a step succeeds with counts for the steps after it. -/
theorem bind_congr_ok {step : Except ε α} {next other : α → Except ε β}
    (same : ∀ x, step = .ok x → next x = other x) : step >>= next = step >>= other := by
  cases step with
  | error e => rfl
  | ok x => exact same x rfl

/-- A check that throws has passed. -/
theorem guard_success {fails : Prop} [Decidable fails] {e : ε} {next : PUnit → Except ε β}
    {value : β}
    (success : (if fails then (throw e : Except ε PUnit) >>= next else next ⟨⟩) = .ok value) :
    ¬ fails ∧ next ⟨⟩ = .ok value := by
  by_cases holds : fails
  · rw [if_pos holds] at success
    cases success
  · rw [if_neg holds] at success
    exact ⟨holds, success⟩

theorem eq_ok_get {step : Except ε α} (success : step.toOption.isSome) :
    step = .ok (step.toOption.get success) := by
  cases step with
  | error e => cases success
  | ok x => rfl

theorem mapM_success {f : α → Except ε β} {inputs : List α} {results : List β}
    (success : inputs.mapM f = .ok results) :
    (∀ y ∈ results, ∃ x ∈ inputs, f x = .ok y) ∧ ∀ x ∈ inputs, ∃ y ∈ results, f x = .ok y := by
  induction inputs generalizing results with
  | nil =>
    cases success
    simp
  | cons first rest ih =>
    rw [List.mapM_cons] at success
    obtain ⟨y, head, success⟩ := bind_success success
    obtain ⟨ys, tail, success⟩ := bind_success success
    cases success
    obtain ⟨backward, forward⟩ := ih tail
    constructor
    · intro z member
      rcases List.mem_cons.mp member with rfl | later
      · exact ⟨first, by simp, head⟩
      · obtain ⟨x, inside, result⟩ := backward z later
        exact ⟨x, by simp [inside], result⟩
    · intro x member
      rcases List.mem_cons.mp member with rfl | later
      · exact ⟨y, by simp, head⟩
      · obtain ⟨z, inside, result⟩ := forward x later
        exact ⟨z, by simp [inside], result⟩

theorem mapM_success_map {f : α → Except ε β} {g : α → β} {inputs : List α} {results : List β}
    (each : ∀ x y, f x = .ok y → y = g x) (success : inputs.mapM f = .ok results) :
    results = inputs.map g := by
  induction inputs generalizing results with
  | nil =>
    cases success
    rfl
  | cons first rest ih =>
    rw [List.mapM_cons] at success
    obtain ⟨y, head, success⟩ := bind_success success
    obtain ⟨ys, tail, success⟩ := bind_success success
    cases success
    rw [List.map_cons, ← each first y head, ← ih tail]

/-- Steps whose results are known succeed together if each of them does. -/
theorem mapM_eq_ok_iff {f : α → Except ε β} {g : α → β} {inputs : List α} {results : List β}
    (each : ∀ x y, f x = .ok y → y = g x) :
    inputs.mapM f = .ok results ↔ (∀ x ∈ inputs, f x = .ok (g x)) ∧ results = inputs.map g := by
  constructor
  · intro success
    refine ⟨fun x member => ?_, mapM_success_map each success⟩
    obtain ⟨y, _, result⟩ := (mapM_success success).2 x member
    rw [result, each x y result]
  · rintro ⟨results_, rfl⟩
    induction inputs with
    | nil => rfl
    | cons first rest ih =>
      rw [List.forall_mem_cons] at results_
      rw [List.mapM_cons, results_.1, ih results_.2]
      rfl

theorem mapM_total {f : α → Except ε β} {g : α → β} (each : ∀ x, f x = .ok (g x))
    (inputs : List α) : inputs.mapM f = .ok (inputs.map g) := by
  induction inputs with
  | nil => rfl
  | cons first rest ih =>
    rw [List.mapM_cons, each, ih]
    rfl

/-- A fold whose steps can fail, but make only what is known of them. -/
theorem foldlM_success_foldl {f : β → α → Except ε β} {g : β → α → β}
    (each : ∀ s x s', f s x = .ok s' → s' = g s x) {inputs : List α} {start last : β}
    (success : inputs.foldlM f start = .ok last) : last = inputs.foldl g start := by
  induction inputs generalizing start with
  | nil =>
    cases success
    rfl
  | cons first rest ih =>
    rw [List.foldlM_cons] at success
    obtain ⟨next, head, success⟩ := bind_success success
    rw [List.foldl_cons, ← each start first next head]
    exact ih success

theorem foldlM_total {f : β → α → Except ε β} {g : β → α → β} (each : ∀ s x, f s x = .ok (g s x))
    (inputs : List α) (start : β) : inputs.foldlM f start = .ok (inputs.foldl g start) := by
  induction inputs generalizing start with
  | nil => rfl
  | cons first rest ih =>
    rw [List.foldlM_cons, each]
    exact ih (g start first)

/-- A fold that only ever fails on certain items, and always in the same way. -/
theorem foldlM_guard {f : β → α → Except ε β} {g : β → α → β} {bad : α → Bool} {e : ε}
    (each : ∀ s x, f s x = if bad x then .error e else .ok (g s x)) (inputs : List α) (start : β) :
    inputs.foldlM f start = if inputs.any bad then .error e else .ok (inputs.foldl g start) := by
  induction inputs generalizing start with
  | nil => rfl
  | cons first rest ih =>
    rw [List.foldlM_cons, each, List.any_cons]
    cases bad first with
    | true => rfl
    | false => exact ih (g start first)

/-- A loop over steps that never fail does not fail. -/
theorem forIn_total {round : α → PUnit → Except ε (ForInStep PUnit)}
    (each : ∀ x, round x ⟨⟩ = .ok (.yield ⟨⟩)) (inputs : List α) :
    forIn inputs ⟨⟩ round = .ok ⟨⟩ := by
  induction inputs with
  | nil => rfl
  | cons first rest ih =>
    rw [List.forIn_cons, each]
    exact ih

/-- A loop that never ends early passes if every round passes. -/
theorem forIn_passes_iff {round : α → PUnit → Except ε (ForInStep PUnit)}
    (onward : ∀ x step, round x ⟨⟩ = .ok step → step = .yield ⟨⟩) (inputs : List α) :
    forIn inputs ⟨⟩ round = .ok ⟨⟩ ↔ ∀ x ∈ inputs, round x ⟨⟩ = .ok (.yield ⟨⟩) := by
  induction inputs with
  | nil => simp [pure, Except.pure]
  | cons first rest ih =>
    rw [List.forIn_cons, List.forall_mem_cons]
    cases head : round first ⟨⟩ with
    | error e => simp [bind, Except.bind]
    | ok step =>
      obtain rfl := onward first step head
      rw [← ih]
      simp [bind, Except.bind]

end Sequencer
