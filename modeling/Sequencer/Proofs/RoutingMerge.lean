import Sequencer.Proofs.OptionLayers
import Sequencer.Proofs.RoutingSelection

/-!
Routes that are merged into routing registers.

`Sets` says what a merge leaves behind, without any order: the field of a listed destination has the value of its route,
and every other field is as it was. A merge succeeds exactly with that. So the order of the entries does not matter, a
merge done again changes nothing, and two merges come to the merge of the two selections, the later over the earlier.
-/
namespace Sequencer

namespace RoutingTable

/-- Whether a bit of a register belongs to the field of a destination. -/
def Covers (t : RoutingTable) (name : String) (register bit : Nat) : Prop :=
  ∃ d, t.destinations.get? name = some d ∧ d.register = register ∧ 8 * d.field ≤ bit ∧ bit < 8 * d.field + 8

/-- Why an entry has no field value, unless it has one. -/
def refusal? (t : RoutingTable) (entry : String × Route) : Option RoutingError :=
  match t.fieldOf entry.1 entry.2 with
  | .ok _ => none
  | .error e => some e

variable {t : RoutingTable} {start r r' r₁ r₂ : Registers} {sel sel' earlier later : Selection} {name : String}
  {route : Route}

namespace Sets

theorem congr (sets : t.Sets start sel r) (same : ∀ name, sel'.get? name = sel.get? name) : t.Sets start sel' r := by
  constructor
  · simpa only [same] using sets.listed
  · simpa only [same] using sets.unlisted

/-- What is merged once is merged for good. -/
theorem again (sets : t.Sets start sel r) : t.Sets r sel r := ⟨sets.listed, fun _ _ _ _ _ => rfl⟩

theorem unique (sets : t.Sets start sel r) (sets' : t.Sets start sel r') : r = r' := by
  refine Registers.ext_of_fields fun i iBound f fBound => ?_
  by_cases covered : ∃ name route d, sel.get? name = some route ∧ t.destinations.get? name = some d ∧ d.place = (i, f)
  · obtain ⟨name, route, d, found, known, place⟩ := covered
    obtain ⟨rfl, rfl⟩ := Prod.mk.inj place
    obtain ⟨d₁, known₁, field⟩ := sets.listed name route found
    obtain ⟨d₂, known₂, field'⟩ := sets'.listed name route found
    obtain rfl := Option.some.inj (known.symm.trans known₁)
    obtain rfl := Option.some.inj (known.symm.trans known₂)
    exact Except.ok.inj (field.symm.trans field')
  · push Not at covered
    rw [sets.unlisted i iBound f fBound covered, sets'.unlisted i iBound f fBound covered]

/-- The later selection takes the fields that it lists, and leaves the earlier one the others. -/
theorem trans (placed : t.Placed) (first : t.Sets start earlier r₁) (second : t.Sets r₁ later r₂) :
    t.Sets start (earlier.merge later) r₂ := by
  constructor
  · intro name route found
    rw [Keyed.get?_merge] at found
    cases top : later.get? name with
    | some route' =>
      rw [top] at found
      obtain rfl := Option.some.inj found
      exact second.listed name route' top
    | none =>
      rw [top, Option.none_or] at found
      obtain ⟨d, known, field⟩ := first.listed name route found
      obtain ⟨iBound, fBound⟩ := placed.bounds known
      -- no other destination has the field
      have kept := second.unlisted d.register iBound d.field fBound fun name' route' d' found' known' same => by
        obtain ⟨rfl, rfl⟩ := placed.entry_unique known' known same
        cases top.symm.trans found'
      exact ⟨d, known, kept ▸ field⟩
  · intro i iBound f fBound free
    have free₁ : ∀ name route d, earlier.get? name = some route → t.destinations.get? name = some d →
        d.place ≠ (i, f) := by
      intro name route d found known
      cases top : later.get? name with
      | some route' => exact free name route' d (by rw [Keyed.get?_merge, top, Option.some_or]) known
      | none => exact free name route d (by rw [Keyed.get?_merge, top, Option.none_or, found]) known
    have free₂ : ∀ name route d, later.get? name = some route → t.destinations.get? name = some d →
        d.place ≠ (i, f) := by
      intro name route d found known
      exact free name route d (by rw [Keyed.get?_merge, found, Option.some_or]) known
    rw [second.unlisted i iBound f fBound free₂, first.unlisted i iBound f fBound free₁]

/-- Bit by bit, nothing changes but the fields of the listed destinations. -/
theorem bit_kept (sets : t.Sets start sel r) {i : Nat} (iBound : i < 2) {k : Nat}
    (outside : ∀ name ∈ sel.keys, ¬t.Covers name i k) : (r.get i).getLsbD k = (start.get i).getLsbD k := by
  by_cases inside : k < 32
  · have field := sets.unlisted i iBound (k / 8) (by omega) fun name route d found known same => by
      obtain ⟨rfl, place⟩ := Prod.mk.inj same
      exact outside name (Keyed.mem_keys_iff.mpr ⟨route, found⟩) ⟨d, known, rfl, by omega, by omega⟩
    exact Registers.getLsbD_of_field field
  · rw [BitVec.getLsbD_of_ge _ _ (by omega), BitVec.getLsbD_of_ge _ _ (by omega)]

end Sets

/-! ### When a merge succeeds -/

theorem refusal?_eq_none_iff {entry : String × Route} :
    t.refusal? entry = none ↔ ∃ value, t.fieldOf entry.1 entry.2 = .ok value := by
  unfold refusal?
  cases t.fieldOf entry.1 entry.2 <;> simp

/-- Entries are written until one is refused. -/
theorem foldlM_setRoute_eq_error_iff {entries : List (String × Route)} {e : RoutingError} :
    entries.foldlM (fun r entry => t.setRoute r entry.1 entry.2) start = .error e ↔
      entries.findSome? t.refusal? = some e := by
  induction entries generalizing start with
  | nil => simp [pure, Except.pure]
  | cons entry rest ih =>
    rw [List.foldlM_cons, List.findSome?_cons]
    cases field : t.fieldOf entry.1 entry.2 with
    | error e' =>
      have refused : t.setRoute start entry.1 entry.2 = .error e' := by
        rw [setRoute, field]
        rfl
      rw [refused]
      simp [refusal?, field, bind, Except.bind]
    | ok value =>
      obtain ⟨d, _, _, known, _⟩ := fieldOf_eq_ok_iff.mp field
      rw [setRoute_eq known field, refusal?, field]
      exact ih

theorem merge_eq_error_iff {e : RoutingError} :
    t.merge start sel = .error e ↔ sel.entries.findSome? t.refusal? = some e :=
  foldlM_setRoute_eq_error_iff

theorem merge_succeeds_iff :
    (∃ r, t.merge start sel = .ok r) ↔ ∀ entry ∈ sel.entries, t.refusal? entry = none := by
  rw [← List.findSome?_eq_none_iff]
  cases outcome : t.merge start sel with
  | ok r =>
    refine iff_of_true ⟨r, rfl⟩ (Option.eq_none_iff_forall_ne_some.mpr fun e refused => ?_)
    cases outcome.symm.trans (merge_eq_error_iff.mpr refused)
  | error e =>
    have refused := merge_eq_error_iff.mp outcome
    simp [refused]

theorem Placed.merge_eq_ok_iff (placed : t.Placed) : t.merge start sel = .ok r ↔ t.Sets start sel r := by
  constructor
  · intro merged
    have taken := merge_succeeds_iff.mp ⟨r, merged⟩
    obtain ⟨r', merged', sets⟩ := placed.merge_sets
      (fun entry listed => refusal?_eq_none_iff.mp (taken entry listed)) start
    obtain rfl := Except.ok.inj (merged.symm.trans merged')
    exact sets
  · intro sets
    obtain ⟨r', merged, sets'⟩ := placed.merge_sets (fun entry listed => by
      obtain ⟨d, _, field⟩ := sets.listed entry.1 entry.2 (Keyed.get?_eq_some_iff.mpr listed)
      exact ⟨_, field⟩) start
    rw [merged, sets.unique sets']

/-- What a merge does to registers, for a table with a field for every destination. Where an entry is refused so is the
merge, with the error of the first such entry. -/
theorem merges_compose (placed : t.Placed) (start : Registers) (sel : Selection) :
    ((∃ r, t.merge start sel = .ok r) ↔ ∀ entry ∈ sel.entries, t.refusal? entry = none) ∧
    (∀ e, t.merge start sel = .error e ↔ sel.entries.findSome? t.refusal? = some e) ∧
    (∀ r, t.merge start sel = .ok r →
      (∀ i < 2, ∀ k, (∀ name ∈ sel.keys, ¬t.Covers name i k) → (r.get i).getLsbD k = (start.get i).getLsbD k) ∧
      (∀ name route, sel.get? name = some route → ∃ d, t.destinations.get? name = some d ∧
        t.fieldOf name route = .ok (r.readField d.register d.field)) ∧
      t.merge r sel = .ok r) ∧
    (∀ sel' : Selection, sel'.entries.Perm sel.entries →
      ∀ r, t.merge start sel' = .ok r ↔ t.merge start sel = .ok r) ∧
    ∀ (lower upper : RunOptions) (direction : Direction) (later : Selection) (r₁ r₂ : Registers),
      lower.selection direction = some sel → upper.selection direction = some later →
      t.merge start sel = .ok r₁ → t.merge r₁ later = .ok r₂ →
      ∃ both, (lower.merge upper).selection direction = some both ∧ t.merge start both = .ok r₂ := by
  refine ⟨merge_succeeds_iff, fun e => merge_eq_error_iff, fun r merged => ?_, fun sel' perm r => ?_, ?_⟩
  · have sets := placed.merge_eq_ok_iff.mp merged
    exact ⟨fun i iBound k outside => sets.bit_kept iBound outside, sets.listed, placed.merge_eq_ok_iff.mpr sets.again⟩
  · have same := Keyed.get?_of_perm perm
    rw [placed.merge_eq_ok_iff, placed.merge_eq_ok_iff]
    exact ⟨fun sets => sets.congr fun name => (same name).symm, fun sets => sets.congr same⟩
  · intro lower upper direction later r₁ r₂ low high first second
    refine ⟨sel.merge later, ?_, ?_⟩
    · rw [RunOptions.selection_merge, low, high]
      rfl
    · have sets := placed.merge_eq_ok_iff.mp first
      exact placed.merge_eq_ok_iff.mpr (sets.trans placed (placed.merge_eq_ok_iff.mp second))

/-- A trigger that goes back to its default, and a bit that is taken from the data. -/
def clearingSelection : Selection :=
  Keyed.ofList [("trigger_stop", ⟨"none", "level"⟩), ("bit_IRQ", ⟨"data_7", "inverted"⟩)]

/-- The bit goes back to its default, and another trigger comes in. -/
def clearingOverride : Selection :=
  Keyed.ofList [("bit_IRQ", ⟨"none", "level"⟩), ("trigger_start", ⟨"in2", "falling"⟩)]

theorem clearing_merges : inputs.merge ⟨0x8241, 0x2a2b⟩ clearingSelection = .ok ⟨0x0041, 0x672b⟩ ∧
    inputs.merge ⟨0x0041, 0x672b⟩ clearingSelection = .ok ⟨0x0041, 0x672b⟩ ∧
    ∃ both, (RunOptions.merge { inputs := some clearingSelection }
        { inputs := some clearingOverride }).inputs = some both ∧ inputs.merge ⟨0x8241, 0x2a2b⟩ both = .ok ⟨0x00c3, 0x002b⟩ := by
  obtain ⟨_, _, sets, _, composes⟩ :=
    merges_compose (wellFormed_ofDirection .input).placed ⟨0x8241, 0x2a2b⟩ clearingSelection
  have first : inputs.merge ⟨0x8241, 0x2a2b⟩ clearingSelection = .ok ⟨0x0041, 0x672b⟩ := by decide +kernel
  have second : inputs.merge ⟨0x0041, 0x672b⟩ clearingOverride = .ok ⟨0x00c3, 0x002b⟩ := by decide +kernel
  exact ⟨first, (sets _ first).2.2, composes _ _ .input _ _ _ rfl rfl first second⟩

/-- Two entries that are refused for different reasons. -/
def refusedSelection : Selection := Keyed.ofList [("nowhere", ⟨"in0", "level"⟩), ("elsewhere", ⟨"in0", "level"⟩)]

def refusedReversed : Selection := Keyed.ofList [("elsewhere", ⟨"in0", "level"⟩), ("nowhere", ⟨"in0", "level"⟩)]

/-- Counting errors, the order of the entries is seen. -/
theorem refusal_depends_on_order : ¬ ∀ (t : RoutingTable) (start : Registers) (sel sel' : Selection), t.Placed →
    sel'.entries.Perm sel.entries → t.merge start sel' = t.merge start sel := by
  intro promise
  have same := promise inputs .zero refusedSelection refusedReversed (wellFormed_ofDirection .input).placed
    (by decide +kernel)
  revert same
  decide +kernel

end RoutingTable
end Sequencer
