import Sequencer.Proofs.BankCursors

/-!
Every planned word with its place and its sources, said by the samples alone.

A written value is changed if its words differ from those of the value before it. It plans one word
for each tick that it takes, and a value that is not changed plans none. A bank plans its shared word
at the ticks at which that word is changed. Plans list just these words, each as often as it is
planned, so that two words for one place can be told from one.
-/
namespace Sequencer

namespace Channel

/-- The written values whose words differ from those of the value before them. -/
def changedValues (c : Channel) : List (Nat × Float) :=
  c.samples.filter fun s => (heldBefore c.samples s.1).map c.words ≠ some (c.words s.2)

/-- The words of a value, from its tick on, with the value before it. -/
def wordsOf (c : Channel) (s : Nat × Float) : List Change :=
  (c.words s.2).mapIdx fun j word =>
    ⟨s.1 + j, word, [(c.name, heldBefore c.samples s.1, some s.2)]⟩

def plannedWords (c : Channel) : List Change := c.changedValues.flatMap c.wordsOf

/-- The value before a sample is the one just before it in the list. -/
theorem heldBefore_split {before after : List (Nat × Float)} {s : Nat × Float}
    (order : Ascending Prod.fst (before ++ s :: after)) :
    heldBefore (before ++ s :: after) s.1 = before.getLast?.map Prod.snd := by
  have earlier := order.filter_before
  unfold heldBefore
  rw [earlier]

-- The induction is on the samples that are still to come; those before them fix the previous value.
private theorem changesFrom_eq (c : Channel) (before rest : List (Nat × Float))
    (split : c.samples = before ++ rest) (order : Ascending Prod.fst (before ++ rest)) :
    c.changesFrom (before.getLast?.map fun s => (c.words s.2, s.2)) rest =
      (rest.filter fun s => (heldBefore c.samples s.1).map c.words ≠ some (c.words s.2)).flatMap
        c.wordsOf := by
  induction rest generalizing before with
  | nil => rfl
  | cons s rest ih =>
    have held : heldBefore c.samples s.1 = before.getLast?.map Prod.snd := by
      rw [split]
      exact heldBefore_split order
    have later := ih (before ++ [s]) (by simp [split]) (by simpa using order)
    simp only [List.getLast?_append, List.getLast?_singleton, Option.some_or, Option.map_some]
      at later
    have same : ((before.getLast?.map fun s => (c.words s.2, s.2)).map Prod.fst = some (c.words s.2)) ↔
        (heldBefore c.samples s.1).map c.words = some (c.words s.2) := by
      rw [held, Option.map_map, Option.map_map]
      rfl
    have old : (before.getLast?.map fun s => (c.words s.2, s.2)).map Prod.snd =
        heldBefore c.samples s.1 := by
      rw [held, Option.map_map]
      rfl
    rw [changesFrom, later, old]
    by_cases unchanged : (heldBefore c.samples s.1).map c.words = some (c.words s.2)
    · rw [if_pos (same.mpr unchanged), List.filter_cons_of_neg (by simpa using unchanged)]
      rfl
    · rw [if_neg (fun h => unchanged (same.mp h)), List.filter_cons_of_pos (by simpa using unchanged),
        List.flatMap_cons]
      rfl

theorem changes_eq {c : Channel} (apart : Apart c.bookings) : c.changes = c.plannedWords :=
  changesFrom_eq c [] c.samples rfl (samples_ascending apart)

theorem mem_changedValues {c : Channel} {s : Nat × Float} :
    s ∈ c.changedValues ↔
      s ∈ c.samples ∧ (heldBefore c.samples s.1).map c.words ≠ some (c.words s.2) := by
  simp [changedValues]

theorem mem_wordsOf {c : Channel} {s : Nat × Float} {planned : Change} :
    planned ∈ c.wordsOf s ↔ ∃ j, (c.words s.2)[j]? = some planned.word ∧ planned.tick = s.1 + j ∧
      planned.sources = [(c.name, heldBefore c.samples s.1, some s.2)] := by
  obtain ⟨tick, word, sources⟩ := planned
  simp only [wordsOf, List.mem_mapIdx, Change.mk.injEq]
  constructor
  · rintro ⟨j, bound, rfl, rfl, rfl⟩
    exact ⟨j, List.getElem?_eq_getElem bound, rfl, rfl⟩
  · rintro ⟨j, found, rfl, rfl⟩
    obtain ⟨bound, rfl⟩ := List.getElem?_eq_some_iff.mp found
    exact ⟨j, bound, rfl, rfl, rfl⟩

/-- The planned words, with their ticks, are those that the channel writes. -/
theorem mem_plannedWords {c : Channel} {tick : Nat} {word : Word} :
    (tick, word) ∈ c.plannedWords.map Change.entry ↔ c.Writes tick word := by
  simp only [plannedWords, List.mem_map, List.mem_flatMap]
  constructor
  · rintro ⟨planned, ⟨s, changed, inWords⟩, entry⟩
    cases entry
    obtain ⟨written, differs⟩ := mem_changedValues.mp changed
    obtain ⟨j, found, atTick, _⟩ := mem_wordsOf.mp inWords
    exact ⟨s.1, s.2, j, written, differs, found, atTick⟩
  · rintro ⟨start, value, j, written, differs, found, rfl⟩
    exact ⟨⟨start + j, word, _⟩, ⟨(start, value), mem_changedValues.mpr ⟨written, differs⟩,
      mem_wordsOf.mpr ⟨j, found, rfl, rfl⟩⟩, rfl⟩

theorem changedValues_eq {c : Channel} (apart : Apart c.bookings) :
    c.changedValues = changed (fun s => c.words s.2) none c.samples := by
  rw [changed_eq_filter (samples_ascending apart), changedValues]
  simp only [heldBefore, Option.map_map, Function.comp_def]

/-- Behind a planned word stands a value whose words are not those of the value before it. -/
theorem sources_changed {c : Channel} {planned : Change} (member : planned ∈ c.plannedWords)
    {source : String × Option Float × Option Float} (behind : source ∈ planned.sources) :
    source.2.1.map c.words ≠ source.2.2.map c.words := by
  obtain ⟨s, changed, inWords⟩ := List.mem_flatMap.mp member
  obtain ⟨_, _, _, sources⟩ := mem_wordsOf.mp inWords
  rw [sources, List.mem_singleton] at behind
  rw [behind]
  exact (mem_changedValues.mp changed).2

end Channel

namespace Device

/-- The ticks at which a written bank takes another word. -/
def changedTicks (d : Device) : List Nat :=
  d.writtenTicks.filter fun tick =>
    ((d.writtenTicks.filter fun earlier => earlier < tick).getLast?).map d.wordAt ≠
      some (d.wordAt tick)

theorem changedTicks_ascending (d : Device) : Ascending id d.changedTicks := d.writtenTicks_ascending.filter _

def plannedWords (d : Device) : List Change :=
  if d.sharesAddress then d.changedTicks.map d.bankWordOf
  else d.channels.flatMap Channel.plannedWords

theorem mem_plannedWords {d : Device} {tick : Nat} {word : Word} :
    (tick, word) ∈ d.plannedWords.map Change.entry ↔ d.Writes tick word := by
  unfold Writes plannedWords
  split
  · simp only [List.map_map, List.mem_map, changedTicks, List.mem_filter, decide_eq_true_eq]
    constructor
    · rintro ⟨_, ⟨written, differs⟩, entry⟩
      cases entry
      exact ⟨written, rfl, differs⟩
    · rintro ⟨written, rfl, differs⟩
      exact ⟨tick, ⟨written, differs⟩, rfl⟩
  · rw [List.map_flatMap, List.mem_flatMap]
    exact exists_congr fun c => and_congr_right fun _ => Channel.mem_plannedWords

theorem changedTicks_eq (d : Device) : d.changedTicks = changed d.wordAt none d.writtenTicks :=
  (changed_eq_filter d.writtenTicks_ascending).symm

theorem planned_changes {d : Device} (sound : d.Sound) : d.planned.changes = d.plannedWords := by
  unfold planned plannedWords
  split
  · rw [changedTicks_eq]
    exact bankEnd_changes sound
  · have each : ∀ c ∈ d.channels, c.changes = c.plannedWords := fun c member =>
      Channel.changes_eq (sound.apart c member)
    simp only [List.flatMap_def, List.map_congr_left each]

/-- A plan lists what its device writes, and nothing else. -/
theorem mem_planned {d : Device} (sound : d.Sound) {tick : Nat} {word : Word} :
    (tick, word) ∈ d.planned.changes.map Change.entry ↔ d.Writes tick word := by
  rw [planned_changes sound]
  exact mem_plannedWords

/-- Between two writes the word of a bank stays. -/
theorem wordAt_congr {d : Device} {tick later : Nat} (inOrder : tick ≤ later)
    (between : ∀ written ∈ d.writtenTicks, written ≤ later → written ≤ tick) :
    d.wordAt tick = d.wordAt later := by
  have held : ∀ c ∈ d.channels, heldAt c.samples tick = heldAt c.samples later := by
    intro c member
    rw [heldAt, heldAt, lastUpTo_congr inOrder fun sample written upTo =>
      between sample.1 (mem_writtenTicks.mpr ⟨c, member, sample, written, rfl⟩) upTo]
  unfold wordAt
  congr 2
  exact List.map_congr_left fun c member => by rw [held c member]

/-- No line is written with other words at a tick than it showed before. -/
def Repeats (d : Device) (tick : Nat) : Prop :=
  ∀ c ∈ d.channels, ∀ value, (tick, value) ∈ c.samples →
    c.words value = c.words ((heldBefore c.samples tick).getD c.default)

theorem Repeats.wordAt {d : Device} (sound : d.Sound) {tick : Nat} (repeats : d.Repeats (tick + 1)) :
    d.wordAt (tick + 1) = d.wordAt tick := by
  have shown : ∀ c ∈ d.channels, c.lineData ((heldAt c.samples (tick + 1)).getD c.default) =
      c.lineData ((heldAt c.samples tick).getD c.default) := by
    intro c member
    have order := Channel.samples_ascending (sound.apart c member)
    rw [← heldBefore_succ c.samples tick]
    rcases next_sample order (tick + 1) with ⟨value, found, held, _⟩ | ⟨_, held, _⟩
    · obtain ⟨before, after, split, _⟩ := List.lookup_eq_some_iff.mp found
      have words := repeats c member value (by simp [split])
      rw [held, Option.getD_some, Channel.lineData, words, Channel.lineData]
    · rw [held]
  unfold Device.wordAt
  congr 2
  exact List.map_congr_left shown

/-- After a first write, a bank plans no word where its lines only repeat what they showed. -/
theorem Repeats.silent {d : Device} (sound : d.Sound) (shares : d.sharesAddress) {tick : Nat}
    (repeats : d.Repeats tick) (later : ∃ earlier ∈ d.writtenTicks, earlier < tick) :
    ∀ planned ∈ d.plannedWords, planned.tick ≠ tick := by
  rintro planned listed rfl
  rw [plannedWords, if_pos shares] at listed
  obtain ⟨tick, changed, rfl⟩ := List.mem_map.mp listed
  obtain ⟨_, differs⟩ := List.mem_filter.mp changed
  have atTick : (d.bankWordOf tick).tick = tick := rfl
  rw [atTick] at repeats later
  obtain ⟨earlier, written, less⟩ := later
  obtain ⟨before, rfl⟩ := Nat.exists_eq_add_one_of_ne_zero (Nat.ne_zero_of_lt less)
  have same : (d.writtenTicks.filter fun t => t < before + 1) = d.writtenTicks.filter fun t => t ≤ before :=
    List.filter_congr fun t _ => decide_eq_decide.mpr Nat.lt_succ_iff
  cases found : (d.writtenTicks.filter fun t => t < before + 1).getLast? with
  | none =>
    have none := List.getLast?_eq_none_iff.mp found
    exact List.filter_eq_nil_iff.mp none earlier written (decide_eq_true less)
  | some last =>
    have lastUp : lastUpTo id before d.writtenTicks = some last := by
      rw [lastUpTo, ← found, same]
      rfl
    obtain ⟨_, upTo, greatest⟩ := d.writtenTicks_ascending.lastUpTo_eq_some_iff.mp lastUp
    have held : d.wordAt last = d.wordAt (before + 1) :=
      (wordAt_congr upTo greatest).trans (repeats.wordAt sound).symm
    refine of_decide_eq_true differs ?_
    rw [found, Option.map_some, held]

/-- Behind every planned word stands at least one channel. -/
theorem sources_ne_nil {d : Device} {planned : Change} (member : planned ∈ d.plannedWords) :
    planned.sources ≠ [] := by
  unfold plannedWords at member
  split at member
  · obtain ⟨tick, changed, rfl⟩ := List.mem_map.mp member
    obtain ⟨c, onDevice, sample, written, atTick⟩ :=
      mem_writtenTicks.mp (List.mem_filter.mp changed).1
    have found : (c.samples.lookup tick).isSome := by
      rw [List.lookup_isSome_iff]
      exact ⟨sample, written, by simp [atTick]⟩
    obtain ⟨value, looked⟩ := Option.isSome_iff_exists.mp found
    have listed : (c.name, heldBefore c.samples tick, some value) ∈ (d.bankWordOf tick).sources :=
      List.mem_filterMap.mpr ⟨c, onDevice, by rw [Channel.sourceAt, looked, Option.map_some]⟩
    exact List.ne_nil_of_mem listed
  · obtain ⟨c, _, inChannel⟩ := List.mem_flatMap.mp member
    obtain ⟨s, _, inWords⟩ := List.mem_flatMap.mp inChannel
    obtain ⟨_, _, _, sources⟩ := Channel.mem_wordsOf.mp inWords
    simp [sources]

end Device

end Sequencer
