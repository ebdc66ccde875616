/-!
Values under distinct names, in the order in which the names first came in.
-/
namespace Sequencer

structure Keyed (α : Type) where
  entries : List (String × α)
  nodup : (entries.map Prod.fst).Nodup
  deriving DecidableEq

namespace Keyed
variable {α β : Type}

def empty : Keyed α := ⟨[], List.nodup_nil⟩

instance : Inhabited (Keyed α) := ⟨empty⟩

instance (priority := low) [BEq α] : BEq (Keyed α) := ⟨fun a b => a.entries == b.entries⟩

def keys (k : Keyed α) : List String := k.entries.map Prod.fst

def values (k : Keyed α) : List α := k.entries.map Prod.snd

def isEmpty (k : Keyed α) : Bool := k.entries.isEmpty

def get? (k : Keyed α) (name : String) : Option α := k.entries.lookup name

def replaceIn (entries : List (String × α)) (name : String) (value : α) : List (String × α) :=
  entries.map fun e => if e.1 = name then (name, value) else e

theorem keys_replaceIn (entries : List (String × α)) (name : String) (value : α) :
    (replaceIn entries name value).map Prod.fst = entries.map Prod.fst := by
  simp only [replaceIn, List.map_map]
  apply List.map_congr_left
  intro e _
  by_cases h : e.1 = name <;> simp [h]

/-- A known name keeps its place and takes the new value; a new name goes to the end. -/
def insert (k : Keyed α) (name : String) (value : α) : Keyed α :=
  if h : name ∈ k.keys then
    ⟨replaceIn k.entries name value, by rw [keys_replaceIn]; exact k.nodup⟩
  else
    ⟨k.entries ++ [(name, value)], by
      rw [List.map_append, List.nodup_append]
      refine ⟨k.nodup, by simp, ?_⟩
      intro a ha b hb hab
      simp only [List.map_cons, List.map_nil, List.mem_singleton] at hb
      exact h (by rw [← hb, ← hab]; exact ha)⟩

/-- The entries of `other` one after the other on top of `k`. -/
def merge (k other : Keyed α) : Keyed α :=
  other.entries.foldl (fun acc e => acc.insert e.1 e.2) k

def ofList (entries : List (String × α)) : Keyed α :=
  entries.foldl (fun acc e => acc.insert e.1 e.2) empty

def map (f : α → β) (k : Keyed α) : Keyed β :=
  ⟨k.entries.map fun e => (e.1, f e.2), by
    have h : (k.entries.map fun e => (e.1, f e.2)).map Prod.fst = k.entries.map Prod.fst := by
      simp [List.map_map]
    rw [h]; exact k.nodup⟩

theorem keys_insert (k : Keyed α) (name : String) (value : α) :
    (k.insert name value).keys = if name ∈ k.keys then k.keys else k.keys ++ [name] := by
  unfold insert
  split
  · exact keys_replaceIn k.entries name value
  · simp [keys]

theorem lookup_replaceIn (entries : List (String × α)) (name other : String) (value : α) :
    (replaceIn entries name value).lookup other =
      if other = name then (entries.lookup other).map fun _ => value else entries.lookup other := by
  induction entries with
  | nil => simp [replaceIn]
  | cons e rest ih =>
    have step : replaceIn (e :: rest) name value =
        (if e.1 = name then (name, value) else e) :: replaceIn rest name value := rfl
    have key : (if e.1 = name then (name, value) else e).1 = e.1 := by
      split
      · exact Eq.symm ‹_›
      · rfl
    rw [step, List.lookup_cons, List.lookup_cons, ih, key]
    cases here : other == e.1 with
    | false => rfl
    | true =>
      rw [eq_of_beq here]
      by_cases own : e.1 = name <;> simp [own]

theorem get?_insert (k : Keyed α) (name other : String) (value : α) :
    (k.insert name value).get? other = if other = name then some value else k.get? other := by
  unfold insert get?
  split
  · rename_i known
    rw [lookup_replaceIn]
    split
    · rename_i same
      obtain ⟨e, listed, isName⟩ := List.mem_map.mp known
      have found : (k.entries.lookup other).isSome :=
        List.lookup_isSome_iff.mpr ⟨e, listed, by simp [same, isName]⟩
      obtain ⟨old, found⟩ := Option.isSome_iff_exists.mp found
      rw [found, Option.map_some]
    · rfl
  · rename_i unknown
    rw [List.lookup_append, List.lookup_cons, List.lookup_nil]
    by_cases same : other = name
    · have absent : k.entries.lookup name = none := by
        refine List.lookup_eq_none_iff.mpr fun e listed => ?_
        have differs : e.1 ≠ name := fun isName => unknown (isName ▸ List.mem_map_of_mem listed)
        simpa using differs.symm
      rw [same, absent]
      simp
    · have other_ : (other == name) = false := by simpa using same
      rw [if_neg same, other_, Option.or_none]

/-- Of several entries for a name the last one counts, and any of them more than what was there before. -/
theorem get?_foldl_insert (entries : List (String × α)) (k : Keyed α) (name : String) :
    (entries.foldl (fun acc e => acc.insert e.1 e.2) k).get? name =
      (((entries.filter fun e => e.1 == name).getLast?).map Prod.snd).or (k.get? name) := by
  induction entries generalizing k with
  | nil => rfl
  | cons e rest ih =>
    rw [List.foldl_cons, ih, get?_insert, List.filter_cons]
    by_cases own : e.1 = name
    · cases last : (rest.filter fun e => e.1 == name).getLast? with
      | none => simp [own, last, List.getLast?_cons]
      | some x => simp [own, last, List.getLast?_cons]
    · simp [own, Ne.symm own]

theorem get?_ofList (entries : List (String × α)) (name : String) :
    (ofList entries).get? name = ((entries.filter fun e => e.1 == name).getLast?).map Prod.snd := by
  rw [ofList, get?_foldl_insert]
  exact Option.or_none

theorem lookup_eq_some_iff {entries : List (String × α)} (nodup : (entries.map Prod.fst).Nodup)
    {name : String} {value : α} : entries.lookup name = some value ↔ (name, value) ∈ entries := by
  induction entries with
  | nil => simp
  | cons e rest ih =>
    rw [List.map_cons, List.nodup_cons] at nodup
    rw [List.lookup_cons, List.mem_cons]
    cases own : name == e.1 with
    | true =>
      obtain rfl := eq_of_beq own
      have alone : (e.1, value) ∉ rest := fun later => nodup.1 (List.mem_map.mpr ⟨_, later, rfl⟩)
      rw [or_iff_left alone, Prod.ext_iff, and_iff_right rfl, Option.some.injEq]
      exact eq_comm
    | false =>
      have other : (name, value) ≠ e := by
        rintro rfl
        simp at own
      rw [or_iff_right other]
      exact ih nodup.2

/-- The value under a name is that of the one entry with the name. -/
theorem get?_eq_some_iff {k : Keyed α} {name : String} {value : α} :
    k.get? name = some value ↔ (name, value) ∈ k.entries :=
  lookup_eq_some_iff k.nodup

theorem mem_values_of_get? {k : Keyed α} {name : String} {value : α} (found : k.get? name = some value) :
    value ∈ k.values :=
  List.mem_map.mpr ⟨_, get?_eq_some_iff.mp found, rfl⟩

theorem mem_keys_iff {k : Keyed α} {name : String} : name ∈ k.keys ↔ ∃ value, k.get? name = some value := by
  constructor
  · intro known
    obtain ⟨⟨_, value⟩, listed, rfl⟩ := List.mem_map.mp known
    exact ⟨value, get?_eq_some_iff.mpr listed⟩
  · rintro ⟨value, found⟩
    exact List.mem_map.mpr ⟨_, get?_eq_some_iff.mp found, rfl⟩

theorem get?_of_perm {k k' : Keyed α} (perm : k'.entries.Perm k.entries) (name : String) :
    k'.get? name = k.get? name := by
  apply Option.ext
  intro value
  rw [get?_eq_some_iff, get?_eq_some_iff]
  exact perm.mem_iff

theorem ext_entries {k k' : Keyed α} (same : k.entries = k'.entries) : k = k' := by
  cases k
  cases k'
  rw [mk.injEq]
  exact same

/-- Entries under distinct names are kept as they are. -/
theorem entries_ofList {entries : List (String × α)} (nodup : (entries.map Prod.fst).Nodup) :
    (ofList entries).entries = entries := by
  have from_ : ∀ (later : List (String × α)) (k : Keyed α),
      ((k.entries ++ later).map Prod.fst).Nodup →
      (later.foldl (fun acc e => acc.insert e.1 e.2) k).entries = k.entries ++ later := by
    intro later
    induction later with
    | nil => exact fun k _ => (List.append_nil _).symm
    | cons e rest ih =>
      intro k distinct
      have new : e.1 ∉ k.keys := by
        rw [List.map_append, List.nodup_append] at distinct
        exact fun known => distinct.2.2 _ known _ (List.mem_map_of_mem List.mem_cons_self) rfl
      have inserted : (k.insert e.1 e.2).entries = k.entries ++ [e] := by
        rw [insert, dif_neg new]
      rw [List.foldl_cons, ih _ (by rwa [inserted, List.append_assoc]), inserted, List.append_assoc]
      rfl
  exact from_ entries empty nodup

theorem ofList_entries (k : Keyed α) : ofList k.entries = k := ext_entries (entries_ofList k.nodup)

/-- The entries are told by the names in their order and the value under each. -/
theorem ext_of_keys {k k' : Keyed α} (names : k.keys = k'.keys) (same : ∀ name, k.get? name = k'.get? name) :
    k = k' := by
  have read : ∀ k : Keyed α, k.entries.map (fun e => (e.1, some e.2)) = k.keys.map fun name => (name, k.get? name) := by
    intro k
    rw [keys, List.map_map]
    apply List.map_congr_left
    intro e listed
    rw [Function.comp_apply, get?_eq_some_iff.mpr listed]
  have tell : ∀ e e' : String × α, (e.1, some e.2) = (e'.1, some e'.2) → e = e' := by
    intro e e' same
    simpa [Prod.ext_iff] using same
  apply ext_entries
  rw [← List.map_inj_right tell, read k, read k', names]
  simp only [same]

/-! ### Laying one over another -/

theorem get?_merge (k other : Keyed α) (name : String) :
    (k.merge other).get? name = (other.get? name).or (k.get? name) := by
  rw [merge, get?_foldl_insert, ← get?_ofList, ofList_entries]

/-- Names that come in again keep their places. -/
theorem keys_merge (k other : Keyed α) : (k.merge other).keys = k.keys ++ other.keys.filter (· ∉ k.keys) := by
  have from_ : ∀ (entries : List (String × α)) (k : Keyed α), (entries.map Prod.fst).Nodup →
      (entries.foldl (fun acc e => acc.insert e.1 e.2) k).keys =
        k.keys ++ (entries.map Prod.fst).filter (· ∉ k.keys) := by
    intro entries
    induction entries with
    | nil => exact fun k _ => (List.append_nil k.keys).symm
    | cons e rest ih =>
      intro k distinct
      rw [List.map_cons, List.nodup_cons] at distinct
      rw [List.foldl_cons, ih _ distinct.2, keys_insert, List.map_cons, List.filter_cons]
      by_cases known : e.1 ∈ k.keys
      · simp [known]
      · have others : (rest.map Prod.fst).filter (· ∉ k.keys ++ [e.1]) = (rest.map Prod.fst).filter (· ∉ k.keys) := by
          apply List.filter_congr
          intro name listed
          have differs : name ≠ e.1 := fun same => distinct.1 (same ▸ listed)
          simp [differs]
        rw [if_neg known, others]
        simp [known]
  exact from_ other.entries k other.nodup

@[simp] theorem merge_self (k : Keyed α) : k.merge k = k := by
  apply ext_of_keys
  · simp [keys_merge]
  · intro name
    rw [get?_merge, Option.or_self]

theorem merge_assoc (a b c : Keyed α) : (a.merge b).merge c = a.merge (b.merge c) := by
  apply ext_of_keys
  · simp only [keys_merge, List.filter_append, List.filter_filter, List.append_assoc, List.mem_append,
      List.mem_filter]
    grind
  · intro name
    rw [get?_merge, get?_merge, get?_merge, get?_merge, Option.or_assoc]

end Keyed

end Sequencer
