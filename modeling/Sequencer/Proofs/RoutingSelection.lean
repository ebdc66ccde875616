import Mathlib.Data.List.Nodup
import Sequencer.Proofs.RoutingFields
import Sequencer.Proofs.Success
import Sequencer.Routing.Firmware

/-!
Selections of routes against the registers that hold them.

`Holds` says when registers hold a selection, without any order: the field of a listed destination has the
value of its route, which is not zero, and no other field has any bit. `encode` and `decode` succeed exactly
with what is held, so each is the inverse of the other up to the order of listing.
-/
namespace Sequencer

/-- Where the field of a destination is. -/
def Destination.place (d : Destination) : Nat × Nat := (d.register, d.field)

namespace RoutingTable

/-- Every destination has a field of its own, and the codes of a route fit into it. -/
structure Placed (t : RoutingTable) : Prop where
  inside : ∀ d ∈ t.destinations.values, d.register < 2 ∧ d.field < 4
  apart : (t.destinations.values.map Destination.place).Nodup
  sources : ∀ code ∈ t.sources.values, code < 64
  levels : ∀ code ∈ t.levels.values, code < 4

/-- Every destination has a field of its own, and the codes can be told apart in a field. -/
structure WellFormed (t : RoutingTable) : Prop where
  inside : ∀ d ∈ t.destinations.values, d.register < 2 ∧ d.field < 4
  apart : (t.destinations.values.map Destination.place).Nodup
  sources : ∀ code ∈ t.sources.values, code < 64
  sources_apart : t.sources.values.Nodup
  levels : ∀ code ∈ t.levels.values, code < 4
  levels_apart : t.levels.values.Nodup

theorem WellFormed.placed {t : RoutingTable} (wf : t.WellFormed) : t.Placed :=
  ⟨wf.inside, wf.apart, wf.sources, wf.levels⟩

theorem wellFormed_ofDirection (direction : Direction) : (ofDirection direction).WellFormed := by
  cases direction with
  | input => exact ⟨by decide +kernel, by decide +kernel, by decide +kernel, by decide +kernel,
      by decide +kernel, by decide +kernel⟩
  | output => exact ⟨by decide +kernel, by decide +kernel, by decide +kernel, by decide +kernel,
      by decide +kernel, by decide +kernel⟩

variable {t : RoutingTable} {d d' : Destination} {name name' : String} {route : Route}
  {r r' : Registers} {sel sel' : Selection} {i f value : Nat}

theorem nameOf_eq_some_iff {names : Keyed Nat} (apart : names.values.Nodup) {code : Nat} :
    nameOf names code = some name ↔ names.get? name = some code := by
  rw [Keyed.get?_eq_some_iff, nameOf, Option.map_eq_some_iff]
  constructor
  · rintro ⟨⟨_, code'⟩, found, rfl⟩
    have same : code' = code := by simpa using List.find?_some found
    exact same ▸ List.mem_of_find?_eq_some found
  · intro listed
    have known : (names.entries.find? fun e => e.2 == code).isSome :=
      List.find?_isSome.mpr ⟨_, listed, by simp⟩
    obtain ⟨e, found⟩ := Option.isSome_iff_exists.mp known
    have same : e.2 = code := by simpa using List.find?_some found
    have only := List.inj_on_of_nodup_map apart (List.mem_of_find?_eq_some found) listed same
    exact ⟨e, found, by rw [only]⟩

namespace Placed

theorem bounds (placed : t.Placed) (known : t.destinations.get? name = some d) :
    d.register < 2 ∧ d.field < 4 :=
  placed.inside d (Keyed.mem_values_of_get? known)

/-- A destination can be told from its place. -/
theorem entry_unique (placed : t.Placed) (known : t.destinations.get? name = some d)
    (known' : t.destinations.get? name' = some d') (same : d.place = d'.place) :
    name = name' ∧ d = d' := by
  have places : ((t.destinations.entries.map Prod.snd).map Destination.place).Nodup := placed.apart
  rw [List.map_map] at places
  have equal := List.inj_on_of_nodup_map places (Keyed.get?_eq_some_iff.mp known)
    (Keyed.get?_eq_some_iff.mp known') same
  exact ⟨congrArg Prod.fst equal, congrArg Prod.snd equal⟩

end Placed

/-! ### Routes and field values -/

theorem fieldOf_eq_ok_iff : t.fieldOf name route = .ok value ↔ ∃ d source level,
    t.destinations.get? name = some d ∧ t.sources.get? route.source = some source ∧
    t.levels.get? route.level = some level ∧ source ∈ d.sources ∧ level ∈ d.levels ∧
    value = source ||| level <<< 6 := by
  unfold fieldOf destination
  cases t.destinations.get? name with
  | none => simp [bind, Except.bind]
  | some d =>
    simp only [bind, Except.bind]
    cases t.sources.get? route.source with
    | none => simp
    | some source =>
      cases t.levels.get? route.level with
      | none => simp
      | some level =>
        by_cases driven : source ∈ d.sources
        · by_cases acting : level ∈ d.levels
          · simp [driven, acting, eq_comm]
          · simp [driven, acting]
        · simp [driven]

theorem routeOf_eq_some_iff : t.routeOf d value = some route ↔
    value % 64 ∈ d.sources ∧ value / 64 ∈ d.levels ∧
    nameOf t.sources (value % 64) = some route.source ∧
    nameOf t.levels (value / 64) = some route.level := by
  obtain ⟨source', level'⟩ := route
  unfold routeOf
  dsimp only
  by_cases accepted : value % 64 ∈ d.sources ∧ value / 64 ∈ d.levels
  · rw [if_pos accepted]
    cases nameOf t.sources (value % 64) with
    | none => simp [bind, Option.bind]
    | some source =>
      cases nameOf t.levels (value / 64) with
      | none => simp [bind, Option.bind]
      | some level => simp [bind, Option.bind, pure, accepted]
  · rw [if_neg accepted]
    grind

/-- Source and level share a field without touching each other. -/
theorem pack_field {source level : Nat} (small : source < 64) :
    source ||| level <<< 6 = source + 64 * level := by
  rw [Nat.or_comm, ← Nat.shiftLeft_add_eq_or_of_lt small, Nat.shiftLeft_eq]
  omega

/-- A route has the value of a field exactly if the field reads as the route. -/
theorem WellFormed.fieldOf_iff_routeOf (wf : t.WellFormed) (known : t.destinations.get? name = some d) :
    t.fieldOf name route = .ok value ↔ t.routeOf d value = some route := by
  rw [fieldOf_eq_ok_iff, routeOf_eq_some_iff, nameOf_eq_some_iff wf.sources_apart,
    nameOf_eq_some_iff wf.levels_apart]
  constructor
  · rintro ⟨d', source, level, known', driver, act, driven, acting, rfl⟩
    obtain rfl := Option.some.inj (known.symm.trans known')
    have bound := wf.sources _ (Keyed.mem_values_of_get? driver)
    rw [pack_field bound]
    have low : (source + 64 * level) % 64 = source := by omega
    have high : (source + 64 * level) / 64 = level := by omega
    rw [low, high]
    exact ⟨driven, acting, driver, act⟩
  · rintro ⟨driven, acting, driver, act⟩
    refine ⟨d, _, _, known, driver, act, driven, acting, ?_⟩
    rw [pack_field (Nat.mod_lt _ (by decide))]
    omega

theorem Placed.fieldOf_lt (placed : t.Placed) (success : t.fieldOf name route = .ok value) :
    value < 256 := by
  obtain ⟨d, source, level, _, driver, act, _, _, rfl⟩ := fieldOf_eq_ok_iff.mp success
  have source_lt := placed.sources _ (Keyed.mem_values_of_get? driver)
  have level_lt := placed.levels _ (Keyed.mem_values_of_get? act)
  rw [pack_field source_lt]
  omega

/-! ### What registers hold -/

/-- The registers hold the routes of the selection and nothing else. -/
structure Holds (t : RoutingTable) (r : Registers) (sel : Selection) : Prop where
  listed : ∀ name route, sel.get? name = some route → ∃ d, t.destinations.get? name = some d ∧
    t.fieldOf name route = .ok (r.readField d.register d.field) ∧ r.readField d.register d.field ≠ 0
  unlisted : ∀ i < 2, ∀ f < 4, r.readField i f ≠ 0 → ∃ name route d, sel.get? name = some route ∧
    t.destinations.get? name = some d ∧ d.place = (i, f)

theorem Holds.congr (holds : t.Holds r sel) (same : ∀ name, sel.get? name = sel'.get? name) :
    t.Holds r sel' := by
  constructor
  · intro name route found
    exact holds.listed name route ((same name).trans found)
  · intro i iBound f fBound used
    obtain ⟨name, route, d, found, known, place⟩ := holds.unlisted i iBound f fBound used
    exact ⟨name, route, d, (same name).symm.trans found, known, place⟩

/-- A selection is held in one way only. -/
theorem Holds.unique (holds : t.Holds r sel) (holds' : t.Holds r' sel) : r = r' := by
  -- both directions are this one, with the registers exchanged
  have half : ∀ {r r' : Registers}, t.Holds r sel → t.Holds r' sel → ∀ i < 2, ∀ f < 4,
      r.readField i f ≠ 0 → r.readField i f = r'.readField i f := by
    intro r r' holds holds' i iBound f fBound used
    obtain ⟨name, route, d, found, known, place⟩ := holds.unlisted i iBound f fBound used
    obtain ⟨rfl, rfl⟩ := Prod.mk.inj place
    obtain ⟨d₁, known₁, field, _⟩ := holds.listed name route found
    obtain ⟨d₂, known₂, field', _⟩ := holds'.listed name route found
    obtain rfl := Option.some.inj (known.symm.trans known₁)
    obtain rfl := Option.some.inj (known.symm.trans known₂)
    exact Except.ok.inj (field.symm.trans field')
  refine Registers.ext_of_fields fun i iBound f fBound => ?_
  by_cases used : r.readField i f = 0
  · by_cases used' : r'.readField i f = 0
    · rw [used, used']
    · exact (half holds' holds i iBound f fBound used').symm
  · exact half holds holds' i iBound f fBound used

/-! ### Writing -/

/-- The step of `merge`: one route is written. -/
def setRoute (t : RoutingTable) (r : Registers) (name : String) (route : Route) :
    Except RoutingError Registers := do
  let value ← t.fieldOf name route
  let d ← t.destination name
  return r.writeField d.register d.field value

theorem setRoute_eq (known : t.destinations.get? name = some d) (field : t.fieldOf name route = .ok value)
    (r : Registers) : t.setRoute r name route = .ok (r.writeField d.register d.field value) := by
  unfold setRoute destination
  rw [field, known]
  rfl

/-- Routes that are written one after the other do not touch each other's fields, and no others. -/
theorem Placed.foldlM_setRoute (placed : t.Placed) {entries : List (String × Route)}
    (distinct : (entries.map Prod.fst).Nodup)
    (takes : ∀ e ∈ entries, ∃ value, t.fieldOf e.1 e.2 = .ok value) (start : Registers) :
    ∃ r, entries.foldlM (fun r e => t.setRoute r e.1 e.2) start = .ok r ∧
      (∀ e ∈ entries, ∀ d, t.destinations.get? e.1 = some d →
        t.fieldOf e.1 e.2 = .ok (r.readField d.register d.field)) ∧
      ∀ i < 2, ∀ f < 4, (∀ e ∈ entries, ∀ d, t.destinations.get? e.1 = some d → d.place ≠ (i, f)) →
        r.readField i f = start.readField i f := by
  induction entries generalizing start with
  | nil => exact ⟨start, rfl, by simp, fun _ _ _ _ _ => rfl⟩
  | cons e rest ih =>
    rw [List.map_cons, List.nodup_cons] at distinct
    obtain ⟨value, field⟩ := takes e List.mem_cons_self
    obtain ⟨d, _, _, known, _⟩ := fieldOf_eq_ok_iff.mp field
    obtain ⟨iBound, fBound⟩ := placed.bounds known
    obtain ⟨r, folded, written, kept⟩ := ih distinct.2
      (fun e later => takes e (List.mem_cons_of_mem _ later)) (start.writeField d.register d.field value)
    -- no later route has the field of this one
    have alone : ∀ e' ∈ rest, ∀ d', t.destinations.get? e'.1 = some d' →
        d'.place ≠ (d.register, d.field) := by
      intro e' later d' known' same
      have equal := (placed.entry_unique known' known same).1
      exact distinct.1 (equal ▸ List.mem_map_of_mem later)
    refine ⟨r, ?_, ?_, ?_⟩
    · rw [List.foldlM_cons, setRoute_eq known field]
      exact folded
    · intro e' member d' known'
      rcases List.mem_cons.mp member with rfl | later
      · obtain rfl := Option.some.inj (known.symm.trans known')
        rw [kept _ iBound _ fBound alone,
          Registers.readField_writeField_self fBound (placed.fieldOf_lt field)]
        exact field
      · exact written e' later d' known'
    · intro j jBound g gBound foreign
      rw [kept j jBound g gBound fun e' later => foreign e' (List.mem_cons_of_mem _ later)]
      have other := foreign e List.mem_cons_self d known
      exact Registers.readField_writeField_other iBound jBound fBound fun same => other same.symm

/-- The registers have the fields of the selection, and all else as at the start. -/
structure Sets (t : RoutingTable) (start : Registers) (sel : Selection) (r : Registers) : Prop where
  listed : ∀ name route, sel.get? name = some route → ∃ d, t.destinations.get? name = some d ∧
    t.fieldOf name route = .ok (r.readField d.register d.field)
  unlisted : ∀ i < 2, ∀ f < 4,
    (∀ name route d, sel.get? name = some route → t.destinations.get? name = some d → d.place ≠ (i, f)) →
    r.readField i f = start.readField i f

/-- Entries with field values are merged. -/
theorem Placed.merge_sets (placed : t.Placed)
    (taken : ∀ e ∈ sel.entries, ∃ value, t.fieldOf e.1 e.2 = .ok value) (start : Registers) :
    ∃ r, t.merge start sel = .ok r ∧ t.Sets start sel r := by
  obtain ⟨r, merged, written, kept⟩ := placed.foldlM_setRoute sel.nodup taken start
  refine ⟨r, merged, ?_, ?_⟩
  · intro name route found
    have listed := Keyed.get?_eq_some_iff.mp found
    obtain ⟨value, field⟩ := taken _ listed
    obtain ⟨d, _, _, known, _⟩ := fieldOf_eq_ok_iff.mp field
    exact ⟨d, known, written _ listed d known⟩
  · intro i iBound f fBound free
    refine kept i iBound f fBound fun e listed d known => ?_
    exact free e.1 e.2 d (Keyed.get?_eq_some_iff.mpr listed) known

/-- Whether `encode` takes an entry. -/
def Selectable (t : RoutingTable) (name : String) (route : Route) : Prop :=
  ∃ value, t.fieldOf name route = .ok value ∧ value ≠ 0

/-- The check that `encode` makes of one entry. -/
def checkEntry (t : RoutingTable) (entry : String × Route) (_ : PUnit) :
    Except RoutingError (ForInStep PUnit) := do
  if (← t.fieldOf entry.1 entry.2) = 0 then
    throw (.defaultRoute entry.1 entry.2)
  return .yield ⟨⟩

theorem encode_eq (t : RoutingTable) (sel : Selection) :
    t.encode sel = (do forIn sel.entries ⟨⟩ t.checkEntry; t.merge .zero sel) := by
  rfl

theorem checkEntry_eq_ok_iff {entry : String × Route} {step : ForInStep PUnit} :
    t.checkEntry entry ⟨⟩ = .ok step ↔ t.Selectable entry.1 entry.2 ∧ step = .yield ⟨⟩ := by
  unfold checkEntry Selectable
  cases t.fieldOf entry.1 entry.2 with
  | error e => simp [bind, Except.bind]
  | ok value =>
    by_cases zero : value = 0 <;>
      simp [bind, Except.bind, throw, throwThe, MonadExceptOf.throw, pure, Except.pure, zero, eq_comm]

theorem encode_eq_ok_iff_merge : t.encode sel = .ok r ↔
    (∀ e ∈ sel.entries, t.Selectable e.1 e.2) ∧ t.merge .zero sel = .ok r := by
  have passes : forIn sel.entries ⟨⟩ t.checkEntry = .ok ⟨⟩ ↔ ∀ e ∈ sel.entries, t.Selectable e.1 e.2 := by
    rw [forIn_passes_iff fun e step passed => (checkEntry_eq_ok_iff.mp passed).2]
    simp [checkEntry_eq_ok_iff]
  rw [encode_eq, ← passes]
  constructor
  · intro success
    obtain ⟨⟨⟩, checked, merged⟩ := bind_success success
    exact ⟨checked, merged⟩
  · rintro ⟨checked, merged⟩
    rw [checked]
    exact merged

/-- Entries that are taken one by one are taken together. -/
theorem WellFormed.encode_of_selectable (wf : t.WellFormed)
    (takes : ∀ e ∈ sel.entries, t.Selectable e.1 e.2) : ∃ r, t.encode sel = .ok r ∧ t.Holds r sel := by
  obtain ⟨r, merged, sets⟩ := wf.placed.merge_sets (fun e listed => (takes e listed).imp fun _ taken => taken.1) .zero
  refine ⟨r, encode_eq_ok_iff_merge.mpr ⟨takes, merged⟩, ?_, ?_⟩
  · intro name route found
    obtain ⟨d, known, held⟩ := sets.listed name route found
    obtain ⟨value, field, nonzero⟩ := takes _ (Keyed.get?_eq_some_iff.mp found)
    obtain rfl := Except.ok.inj (field.symm.trans held)
    exact ⟨d, known, held, nonzero⟩
  · intro i iBound f fBound used
    by_contra unused
    push Not at unused
    exact used ((sets.unlisted i iBound f fBound unused).trans Registers.readField_zero)

theorem WellFormed.encode_eq_ok_iff (wf : t.WellFormed) : t.encode sel = .ok r ↔ t.Holds r sel := by
  constructor
  · intro success
    obtain ⟨r', success', holds⟩ := wf.encode_of_selectable (encode_eq_ok_iff_merge.mp success).1
    obtain rfl := Except.ok.inj (success.symm.trans success')
    exact holds
  · intro holds
    obtain ⟨r', success, holds'⟩ := wf.encode_of_selectable fun e listed => by
      obtain ⟨d, _, field, nonzero⟩ := holds.listed e.1 e.2 (Keyed.get?_eq_some_iff.mpr listed)
      exact ⟨_, field, nonzero⟩
    rw [success, holds.unique holds']

/-! ### Refusing -/

/-- Why an entry cannot be encoded. -/
inductive Refuses (t : RoutingTable) (name : String) (route : Route) : Prop where
  | unknownDestination (unknown : t.destinations.get? name = none)
  | unknownSource (unknown : t.sources.get? route.source = none)
  | unknownLevel (unknown : t.levels.get? route.level = none)
  | sourceNotAllowed (d : Destination) (source : Nat) (destination : t.destinations.get? name = some d)
    (driver : t.sources.get? route.source = some source) (refused : source ∉ d.sources)
  | levelNotAllowed (d : Destination) (level : Nat) (destination : t.destinations.get? name = some d)
    (act : t.levels.get? route.level = some level) (refused : level ∉ d.levels)
  | defaultRoute (driver : t.sources.get? route.source = some 0)
    (act : t.levels.get? route.level = some 0)

theorem pack_eq_zero_iff {source level : Nat} : source ||| level <<< 6 = 0 ↔ source = 0 ∧ level = 0 := by
  rw [Nat.or_eq_zero_iff, Nat.shiftLeft_eq_zero_iff]

theorem refuses_iff : t.Refuses name route ↔ ¬ t.Selectable name route := by
  constructor
  · rintro refused ⟨value, field, nonzero⟩
    obtain ⟨d, source, level, known, driver, act, driven, acting, rfl⟩ := fieldOf_eq_ok_iff.mp field
    cases refused with
    | unknownDestination unknown => simp [unknown] at known
    | unknownSource unknown => simp [unknown] at driver
    | unknownLevel unknown => simp [unknown] at act
    | sourceNotAllowed d' source' known' driver' refused =>
      obtain rfl := Option.some.inj (known.symm.trans known')
      obtain rfl := Option.some.inj (driver.symm.trans driver')
      exact refused driven
    | levelNotAllowed d' level' known' act' refused =>
      obtain rfl := Option.some.inj (known.symm.trans known')
      obtain rfl := Option.some.inj (act.symm.trans act')
      exact refused acting
    | defaultRoute driver' act' =>
      obtain rfl := Option.some.inj (driver.symm.trans driver')
      obtain rfl := Option.some.inj (act.symm.trans act')
      exact nonzero rfl
  · intro refused
    cases known : t.destinations.get? name with
    | none => exact .unknownDestination known
    | some d =>
      cases driver : t.sources.get? route.source with
      | none => exact .unknownSource driver
      | some source =>
        cases act : t.levels.get? route.level with
        | none => exact .unknownLevel act
        | some level =>
          by_cases driven : source ∈ d.sources
          · by_cases acting : level ∈ d.levels
            · have zero : source ||| level <<< 6 = 0 := by
                by_contra nonzero
                exact refused ⟨_, fieldOf_eq_ok_iff.mpr
                  ⟨d, source, level, known, driver, act, driven, acting, rfl⟩, nonzero⟩
              obtain ⟨rfl, rfl⟩ := pack_eq_zero_iff.mp zero
              exact .defaultRoute driver act
            · exact .levelNotAllowed d level known act acting
          · exact .sourceNotAllowed d source known driver driven

theorem WellFormed.encode_fails_iff (wf : t.WellFormed) :
    (∃ e, t.encode sel = .error e) ↔ ∃ entry ∈ sel.entries, t.Refuses entry.1 entry.2 := by
  constructor
  · rintro ⟨e, failure⟩
    by_contra taken
    push Not at taken
    obtain ⟨r, success, _⟩ := wf.encode_of_selectable fun entry listed =>
      not_not.mp fun refused => taken entry listed (refuses_iff.mpr refused)
    cases failure.symm.trans success
  · rintro ⟨entry, listed, refused⟩
    cases outcome : t.encode sel with
    | error e => exact ⟨e, rfl⟩
    | ok r => exact absurd ((encode_eq_ok_iff_merge.mp outcome).1 entry listed) (refuses_iff.mp refused)

end RoutingTable
end Sequencer
