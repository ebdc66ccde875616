import Mathlib.Data.List.Perm.Basic
import Sequencer.Proofs.RoutingSelection

/-!
Reading the routing registers, and the two conversions against each other.

`decode` looks at fields and stray bits, `encode` at names and codes, yet both accept the same: what one of
them takes is what the other one makes.
-/
namespace Sequencer.RoutingTable

variable {t : RoutingTable} {d d' : Destination} {name : String} {route : Route} {r : Registers}
  {sel sel' : Selection} {i f k : Nat}

/-! ### Stray bits -/

theorem getLsbD_usedMask : (t.usedMask i).getLsbD k = true ↔
    ∃ d ∈ t.destinations.values, d.register = i ∧ (Registers.fieldMask d.field).getLsbD k = true := by
  have from_ : ∀ (ds : List Destination) (start : Word),
      (ds.foldl (fun w d => if d.register = i then w ||| Registers.fieldMask d.field else w)
        start).getLsbD k = true ↔ start.getLsbD k = true ∨
        ∃ d ∈ ds, d.register = i ∧ (Registers.fieldMask d.field).getLsbD k = true := by
    intro ds
    induction ds with
    | nil => simp
    | cons d ds ih =>
      intro start
      rw [List.foldl_cons, ih]
      by_cases here : d.register = i
      · simp [here, or_assoc]
      · simp [here]
  rw [usedMask, from_]
  simp

/-- No bit is stray if every field in use belongs to a destination. -/
theorem checkStray_eq_ok_iff (t : RoutingTable) (r : Registers) (i : Nat) : t.checkStray r i = .ok () ↔
    ∀ f < 4, r.readField i f ≠ 0 → ∃ d ∈ t.destinations.values, d.place = (i, f) := by
  have clear : t.checkStray r i = .ok () ↔ r.get i &&& ~~~t.usedMask i = 0 := by
    unfold checkStray
    dsimp only
    split
    · rename_i none
      exact iff_of_true rfl none
    · rename_i some
      exact iff_of_false nofun some
  have bitwise : r.get i &&& ~~~t.usedMask i = 0 ↔
      ∀ k < 32, (r.get i).getLsbD k = true → (t.usedMask i).getLsbD k = true := by
    constructor
    · intro none k inside set
      have bit := congrArg (fun word => word.getLsbD k) none
      simpa [inside, set] using bit
    · intro covered
      apply BitVec.eq_of_getLsbD_eq
      intro k inside
      cases set : (r.get i).getLsbD k with
      | false => simp [set]
      | true => simp [set, inside, covered k inside set]
  rw [clear, bitwise]
  constructor
  · intro covered f fBound used
    obtain ⟨k, inside, set⟩ : ∃ k < 8, (r.get i).getLsbD (8 * f + k) = true := by
      by_contra unset
      push Not at unset
      exact used (Registers.readField_eq_zero_iff.mpr fun k inside => by simpa using unset k inside)
    obtain ⟨d, known, register, masked⟩ := getLsbD_usedMask.mp (covered (8 * f + k) (by omega) set)
    rw [Registers.getLsbD_fieldMask, decide_eq_true_iff] at masked
    refine ⟨d, known, ?_⟩
    rw [Destination.place, register, show d.field = f by omega]
  · intro places k inside set
    have used : r.readField i (k / 8) ≠ 0 := by
      intro zero
      have bit := Registers.readField_eq_zero_iff.mp zero (k % 8) (Nat.mod_lt _ (by decide))
      rw [Nat.div_add_mod, set] at bit
      cases bit
    obtain ⟨d, known, place⟩ := places (k / 8) (by omega) used
    obtain ⟨rfl, field⟩ := Prod.mk.inj place
    refine getLsbD_usedMask.mpr ⟨d, known, rfl, ?_⟩
    rw [Registers.getLsbD_fieldMask, decide_eq_true_iff]
    omega

/-! ### Reading -/

/-- The route in the field of a destination, if it holds one. -/
def routeIn (t : RoutingTable) (r : Registers) (d : Destination) : Option Route :=
  if r.readField d.register d.field = 0 then none else t.routeOf d (r.readField d.register d.field)

theorem decodeField_eq_ok {result : Option Route} (success : t.decodeField r d = .ok result) :
    result = t.routeIn r d := by
  unfold decodeField at success
  unfold routeIn
  dsimp only at success
  split at success
  · rename_i zero
    cases success
    rw [if_pos zero]
  · rename_i nonzero
    rw [if_neg nonzero]
    split at success
    · rename_i route found
      cases success
      exact found.symm
    · cases success

/-- A field is refused if it has a value that is no route. -/
theorem decodeField_eq_ok_iff : t.decodeField r d = .ok (t.routeIn r d) ↔
    (r.readField d.register d.field ≠ 0 → (t.routeIn r d).isSome) := by
  unfold decodeField routeIn
  dsimp only
  by_cases zero : r.readField d.register d.field = 0
  · simp [zero]
  · cases t.routeOf d (r.readField d.register d.field) <;> simp [zero]

/-- The routes that are found in the registers, in the order of the table. -/
def routesIn (t : RoutingTable) (r : Registers) : List (String × Route) :=
  t.destinations.entries.filterMap fun e => (t.routeIn r e.2).map fun route => (e.1, route)

theorem keys_routesIn (t : RoutingTable) (r : Registers) :
    ((t.routesIn r).map Prod.fst).Sublist t.destinations.keys := by
  have from_ : ∀ entries : List (String × Destination),
      ((entries.filterMap fun e => (t.routeIn r e.2).map fun route => (e.1, route)).map Prod.fst).Sublist
        (entries.map Prod.fst) := by
    intro entries
    induction entries with
    | nil => exact .slnil
    | cons e rest ih =>
      rw [List.filterMap_cons, List.map_cons]
      cases t.routeIn r e.2 with
      | none => exact .cons _ ih
      | some route => exact .cons_cons _ ih
  exact from_ t.destinations.entries

def selectionIn (t : RoutingTable) (r : Registers) : Selection :=
  ⟨t.routesIn r, (keys_routesIn t r).nodup t.destinations.nodup⟩

theorem get?_selectionIn : (t.selectionIn r).get? name = some route ↔
    ∃ d, t.destinations.get? name = some d ∧ t.routeIn r d = some route := by
  rw [Keyed.get?_eq_some_iff]
  refine List.mem_filterMap.trans ?_
  constructor
  · rintro ⟨e, listed, here⟩
    obtain ⟨_, found, same⟩ := Option.map_eq_some_iff.mp here
    cases same
    exact ⟨e.2, Keyed.get?_eq_some_iff.mpr listed, found⟩
  · rintro ⟨d, known, found⟩
    exact ⟨(name, d), Keyed.get?_eq_some_iff.mp known, by rw [found]; rfl⟩

/-- What registers must satisfy to be read. -/
structure Readable (t : RoutingTable) (r : Registers) : Prop where
  routes : ∀ d ∈ t.destinations.values, r.readField d.register d.field ≠ 0 → (t.routeIn r d).isSome
  clean : ∀ i < 2, ∀ f < 4, r.readField i f ≠ 0 → ∃ d ∈ t.destinations.values, d.place = (i, f)

/-- The step of `decode`: one destination is read. -/
def readEntry (t : RoutingTable) (r : Registers) (entry : String × Destination) :
    Except RoutingError (String × Option Route) := do
  return (entry.1, ← t.decodeField r entry.2)

theorem decode_eq (t : RoutingTable) (r : Registers) : t.decode r = (do
    let routes ← t.destinations.entries.mapM (t.readEntry r)
    t.checkStray r 0
    t.checkStray r 1
    return Keyed.ofList (routes.filterMap fun (name, route) => route.map fun r => (name, r))) :=
  rfl

theorem readEntry_eq_ok {entry : String × Destination} {read : String × Option Route}
    (success : t.readEntry r entry = .ok read) : read = (entry.1, t.routeIn r entry.2) := by
  obtain ⟨route, field, same⟩ := bind_success success
  cases same
  rw [decodeField_eq_ok field]

theorem readEntry_eq_ok_iff {entry : String × Destination} :
    t.readEntry r entry = .ok (entry.1, t.routeIn r entry.2) ↔
      (r.readField entry.2.register entry.2.field ≠ 0 → (t.routeIn r entry.2).isSome) := by
  rw [← decodeField_eq_ok_iff, readEntry]
  constructor
  · intro success
    obtain ⟨route, field, same⟩ := bind_success success
    cases same
    exact field
  · intro field
    rw [field]
    rfl

theorem decode_eq_ok_iff : t.decode r = .ok sel ↔ t.Readable r ∧ sel = t.selectionIn r := by
  have gathered : Keyed.ofList ((t.destinations.entries.map fun e => (e.1, t.routeIn r e.2)).filterMap
      fun (name, route) => route.map fun r => (name, r)) = t.selectionIn r := by
    rw [List.filterMap_map]
    exact Keyed.ext_entries (Keyed.entries_ofList (t.selectionIn r).nodup)
  rw [decode_eq]
  constructor
  · intro success
    obtain ⟨routes, read, success⟩ := bind_success success
    obtain ⟨⟨⟩, clean₀, success⟩ := bind_success success
    obtain ⟨⟨⟩, clean₁, success⟩ := bind_success success
    obtain ⟨fields, rfl⟩ := (mapM_eq_ok_iff fun _ _ => readEntry_eq_ok).mp read
    cases success
    refine ⟨⟨?_, ?_⟩, gathered⟩
    · intro d known
      obtain ⟨entry, listed, rfl⟩ := List.mem_map.mp known
      exact readEntry_eq_ok_iff.mp (fields entry listed)
    · intro i iBound
      obtain rfl | rfl : i = 0 ∨ i = 1 := by omega
      · exact (checkStray_eq_ok_iff t r 0).mp clean₀
      · exact (checkStray_eq_ok_iff t r 1).mp clean₁
  · rintro ⟨readable, rfl⟩
    have fields : ∀ entry ∈ t.destinations.entries,
        t.readEntry r entry = .ok (entry.1, t.routeIn r entry.2) := fun entry listed =>
      readEntry_eq_ok_iff.mpr (readable.routes entry.2 (List.mem_map_of_mem listed))
    have read : t.destinations.entries.mapM (t.readEntry r) = .ok _ :=
      (mapM_eq_ok_iff fun _ _ => readEntry_eq_ok).mpr ⟨fields, rfl⟩
    rw [read, (checkStray_eq_ok_iff t r 0).mpr (readable.clean 0 (by decide)),
      (checkStray_eq_ok_iff t r 1).mpr (readable.clean 1 (by decide)), ← gathered]
    rfl

/-! ### The two against each other -/

namespace WellFormed

theorem routeIn_eq_some_iff (wf : t.WellFormed) (known : t.destinations.get? name = some d) :
    t.routeIn r d = some route ↔ t.fieldOf name route = .ok (r.readField d.register d.field) ∧
      r.readField d.register d.field ≠ 0 := by
  rw [routeIn, wf.fieldOf_iff_routeOf known]
  by_cases zero : r.readField d.register d.field = 0 <;> simp [zero]

/-- A selection that the registers hold is found in them. -/
theorem get?_of_holds (wf : t.WellFormed) (holds : t.Holds r sel) (name : String) :
    sel.get? name = (t.selectionIn r).get? name := by
  apply Option.ext
  intro route
  rw [get?_selectionIn]
  constructor
  · intro found
    obtain ⟨d, known, field⟩ := holds.listed name route found
    exact ⟨d, known, (wf.routeIn_eq_some_iff known).mpr field⟩
  · rintro ⟨d, known, found⟩
    have field := (wf.routeIn_eq_some_iff known).mp found
    obtain ⟨iBound, fBound⟩ := wf.placed.bounds known
    obtain ⟨name', route', d', listed, known', place⟩ := holds.unlisted _ iBound _ fBound field.2
    obtain ⟨rfl, rfl⟩ := wf.placed.entry_unique known known' place.symm
    obtain ⟨d₁, known₁, field₁⟩ := holds.listed name route' listed
    obtain rfl := Option.some.inj (known.symm.trans known₁)
    have found' := (wf.routeIn_eq_some_iff known).mpr field₁
    rw [listed]
    exact found'.symm.trans found

theorem readable_iff (wf : t.WellFormed) : t.Readable r ↔ t.Holds r (t.selectionIn r) := by
  constructor
  · intro readable
    constructor
    · intro name route found
      obtain ⟨d, known, here⟩ := get?_selectionIn.mp found
      exact ⟨d, known, (wf.routeIn_eq_some_iff known).mp here⟩
    · intro i iBound f fBound used
      obtain ⟨d, listed, place⟩ := readable.clean i iBound f fBound used
      obtain ⟨rfl, rfl⟩ := Prod.mk.inj place
      obtain ⟨route, found⟩ := Option.isSome_iff_exists.mp (readable.routes d listed used)
      obtain ⟨entry, member, rfl⟩ := List.mem_map.mp listed
      have known := Keyed.get?_eq_some_iff.mpr member
      exact ⟨entry.1, route, entry.2, get?_selectionIn.mpr ⟨_, known, found⟩, known, rfl⟩
  · intro holds
    constructor
    · intro d listed used
      obtain ⟨iBound, fBound⟩ := wf.inside d listed
      obtain ⟨name, route, d', found, known, place⟩ := holds.unlisted _ iBound _ fBound used
      obtain ⟨entry, member, rfl⟩ := List.mem_map.mp listed
      obtain ⟨rfl, rfl⟩ := wf.placed.entry_unique known (Keyed.get?_eq_some_iff.mpr member) place
      obtain ⟨d₁, known₁, here⟩ := get?_selectionIn.mp found
      obtain rfl := Option.some.inj (known.symm.trans known₁)
      rw [here, Option.isSome_some]
    · intro i iBound f fBound used
      obtain ⟨_, _, d, _, known, place⟩ := holds.unlisted i iBound f fBound used
      exact ⟨d, Keyed.mem_values_of_get? known, place⟩

/-- Registers are read as the one selection in table order that they hold. -/
theorem decode_eq_ok_iff (wf : t.WellFormed) :
    t.decode r = .ok sel ↔ t.Holds r sel ∧ sel = t.selectionIn r := by
  rw [RoutingTable.decode_eq_ok_iff, wf.readable_iff]
  constructor <;> rintro ⟨holds, rfl⟩ <;> exact ⟨holds, rfl⟩

theorem decode_of_holds (wf : t.WellFormed) (holds : t.Holds r sel) :
    t.decode r = .ok (t.selectionIn r) :=
  wf.decode_eq_ok_iff.mpr ⟨holds.congr (wf.get?_of_holds holds), rfl⟩

end WellFormed

/-- Every way in which the two conversions agree, for a table that can tell its fields apart. -/
theorem encode_decode_inverse :
    (∀ direction, (ofDirection direction).WellFormed) ∧ ∀ t : RoutingTable, t.WellFormed →
      (∀ r sel, t.decode r = .ok sel →
        sel.keys.Sublist t.destinations.keys ∧ t.encode sel = .ok r) ∧
      (∀ sel r, t.encode sel = .ok r → ∃ sel', t.decode r = .ok sel' ∧
        sel'.entries.Perm sel.entries ∧ sel'.keys.Sublist t.destinations.keys) ∧
      (∀ sel, (∃ e, t.encode sel = .error e) ↔
        ∃ entry ∈ sel.entries, t.Refuses entry.1 entry.2) ∧
      ∀ r, (∃ e, t.decode r = .error e) ↔ ∀ sel, t.encode sel ≠ .ok r := by
  refine ⟨wellFormed_ofDirection, fun t wf => ⟨?_, ?_, fun sel => wf.encode_fails_iff, ?_⟩⟩
  · intro r sel read
    obtain ⟨holds, rfl⟩ := wf.decode_eq_ok_iff.mp read
    exact ⟨keys_routesIn t r, wf.encode_eq_ok_iff.mpr holds⟩
  · intro sel r written
    have holds := wf.encode_eq_ok_iff.mp written
    refine ⟨t.selectionIn r, wf.decode_of_holds holds, ?_, keys_routesIn t r⟩
    refine (List.perm_ext_iff_of_nodup (.of_map _ (t.selectionIn r).nodup) (.of_map _ sel.nodup)).mpr ?_
    intro entry
    rw [← Keyed.get?_eq_some_iff, ← Keyed.get?_eq_some_iff, wf.get?_of_holds holds]
  · intro r
    constructor
    · rintro ⟨e, refused⟩ sel written
      have read := wf.decode_of_holds (wf.encode_eq_ok_iff.mp written)
      cases refused.symm.trans read
    · intro unmatched
      cases read : t.decode r with
      | error e => exact ⟨e, rfl⟩
      | ok sel =>
        have holds := (wf.decode_eq_ok_iff.mp read).1
        exact absurd (wf.encode_eq_ok_iff.mpr holds) (unmatched sel)

/-- Two inputs, listed against the order of the table. -/
def sampleSelection : Selection :=
  Keyed.ofList [("bit_IRQ", ⟨"data_7", "level"⟩), ("trigger_stop", ⟨"in1", "rising"⟩)]

theorem sampleSelection_reordered :
    inputs.encode sampleSelection = .ok ⟨0x8200, 0x2700⟩ ∧
    (∃ sel, inputs.decode ⟨0x8200, 0x2700⟩ = .ok sel ∧ sel.entries.Perm sampleSelection.entries ∧
      sel.keys.Sublist inputs.destinations.keys ∧ inputs.encode sel = .ok ⟨0x8200, 0x2700⟩) ∧
    ∀ sel, inputs.encode sel ≠ .ok ⟨0x01000000, 0⟩ := by
  have wf : inputs.WellFormed := encode_decode_inverse.1 .input
  obtain ⟨inverts, reorders, _, unread⟩ := encode_decode_inverse.2 inputs wf
  have written : inputs.encode sampleSelection = .ok ⟨0x8200, 0x2700⟩ := by decide +kernel
  obtain ⟨sel, read, perm, ordered⟩ := reorders _ _ written
  refine ⟨written, ⟨sel, read, perm, ordered, (inverts _ _ read).2⟩, ?_⟩
  exact (unread _).mp ⟨.invalidField .input 0 3 1, by decide +kernel⟩

end Sequencer.RoutingTable
