import Sequencer.Proofs.BoardEdits
import Sequencer.Proofs.BusWord

/-!
The words that a device has to put on the bus, said by what its channels hold, and the plan that it
makes if no value is refused.

A value counts if its words differ from those of the value before it, or if there is none before it.
In a bank the values are those of the shared word.
-/
namespace Sequencer

namespace Channel

/-- A word of a written value that differs from the value before it. -/
def Writes (c : Channel) (tick : Nat) (word : Word) : Prop :=
  ∃ start value j, (start, value) ∈ c.samples ∧
    (heldBefore c.samples start).map c.words ≠ some (c.words value) ∧
    (c.words value)[j]? = some word ∧ tick = start + j

end Channel

namespace Device

/-- The ticks at which some line of a bank is written. -/
def writtenTicks (d : Device) : List Nat :=
  sortedTicks (d.channels.flatMap fun c => c.samples.map Prod.fst)

theorem writtenTicks_ascending (d : Device) : Ascending id d.writtenTicks := (sortedTicks_spec _).1

theorem mem_writtenTicks {d : Device} {tick : Nat} :
    tick ∈ d.writtenTicks ↔ ∃ c ∈ d.channels, ∃ sample ∈ c.samples, sample.1 = tick := by
  rw [writtenTicks, (sortedTicks_spec _).2, List.mem_flatMap]
  simp only [List.mem_map]

/-- The word of a bank with the values that its lines hold at a tick. -/
def wordAt (d : Device) (tick : Nat) : Word :=
  Word.pack d.address ((d.channels.map fun c =>
    c.lineData ((heldAt c.samples tick).getD c.default)).foldl (· ||| ·) 0)

/-- A word of the bank, where a line is written, that differs from the one where a line was written
before. -/
def BankWrites (d : Device) (tick : Nat) (word : Word) : Prop :=
  tick ∈ d.writtenTicks ∧ word = d.wordAt tick ∧
    ((d.writtenTicks.filter fun earlier => earlier < tick).getLast?).map d.wordAt ≠ some word

def Writes (d : Device) (tick : Nat) (word : Word) : Prop :=
  if d.sharesAddress then d.BankWrites tick word else ∃ c ∈ d.channels, c.Writes tick word

end Device

/-! ### Plans -/

def Change.entry (c : Change) : Nat × Word := (c.tick, c.word)

/-- A bank moves on to a tick, whatever its lines show there. -/
def BankState.pass (address : Nat) (s : BankState) (tick : Nat) : BankState :=
  s.put address tick (s.lines.foldl (BankSample.add tick) {})

namespace Device

/-- A bank after the ticks at which its lines are written. -/
def bankEnd (d : Device) : BankState :=
  d.writtenTicks.foldl (BankState.pass d.address) ⟨d.channels.map .start, none, #[]⟩

/-- The plan of a device if its values pass every check. -/
def planned (d : Device) : Plan :=
  if d.sharesAddress then ⟨d.rack, d.bankEnd.changes.toList, d.writtenTicks.getLast?⟩
  else ⟨d.rack, d.channels.flatMap Channel.changes, (d.channels.filterMap Channel.lastTick).max?⟩

private theorem pass_of_visit {address : Nat} {check : Bool} {s s' : BankState} {tick : Nat}
    (visited : BankState.visit address check s tick = .ok s') : s' = s.pass address tick := by
  obtain ⟨now, gathered, visited⟩ := bind_success visited
  have lines : now = s.lines.foldl (BankSample.add tick) {} := by
    refine foldlM_success_foldl (fun now l next added => ?_) gathered
    obtain ⟨_, _, added⟩ := bind_success added
    cases added
    rfl
  cases visited
  rw [lines, BankState.pass]

/-- Checks can refuse a value, but they do not change the plan. -/
theorem plan_eq {d : Device} {check : Bool} {p : Plan} (success : d.plan check = .ok p) :
    p = d.planned := by
  unfold plan at success
  unfold planned
  split at success
  · rename_i shares
    rw [if_pos shares]
    obtain ⟨last, passed, success⟩ := bind_success success
    have end_ : last = d.bankEnd := foldlM_success_foldl (fun _ _ _ => pass_of_visit) passed
    cases success
    rw [end_]
    rfl
  · rename_i alone
    rw [if_neg alone]
    obtain ⟨_, _, success⟩ := bind_success success
    cases success
    rfl

theorem plan_unchecked (d : Device) : d.plan false = .ok d.planned := by
  unfold plan planned
  split
  · have visit : ∀ s tick, BankState.visit d.address false s tick = .ok (s.pass d.address tick) := by
      intro s tick
      have add : ∀ now l, BankSample.visit false tick now l = .ok (now.add tick l) := fun _ _ => rfl
      rw [BankState.visit, foldlM_total add]
      rfl
    rw [planBank, foldlM_total visit]
    rfl
  · unfold planChannels
    rw [forIn_total fun c => rfl]
    rfl

theorem planned_rack (d : Device) : d.planned.rack = d.rack := by
  unfold planned
  split <;> rfl

end Device

/-! ### The words themselves -/

theorem Codec.length_chunksOf (n raw : Nat) : (chunksOf n raw).length = n := by
  induction n generalizing raw with
  | zero => rfl
  | succ n ih => rw [chunksOf, List.length_cons, ih]

theorem Codec.length_valueWords (c : Codec) (place : Place) (value : Float) :
    (c.valueWords place value).length = c.wordsPerValue := by
  unfold valueWords split
  rw [List.length_map]
  cases packing : c.packing with
  | chunks => exact length_chunksOf _ _
  | sharedBit => simp [wordsPerValue, c.oneBit packing]

theorem Channel.length_words (c : Channel) (value : Float) :
    (c.words value).length = c.codec.wordsPerValue :=
  c.codec.length_valueWords c.place value

theorem Channel.mem_words {c : Channel} {value : Float} {word : Word} (member : word ∈ c.words value) :
    ∃ data, word = Word.pack c.place.address data := by
  obtain ⟨data, _, rfl⟩ := List.mem_map.mp member
  exact ⟨data, rfl⟩

/-- Everything that a device writes is a packed word for one of its addresses. -/
theorem Device.Writes.packed {d : Device} (sound : d.Sound) {tick : Nat} {word : Word}
    (writes : d.Writes tick word) :
    ∃ address ∈ d.addresses, ∃ data, word = Word.pack address data := by
  by_cases shares : d.sharesAddress
  · rw [Writes, if_pos shares] at writes
    exact ⟨d.address, address_mem shares, _, writes.2.1⟩
  · rw [Writes, if_neg shares] at writes
    obtain ⟨c, member, start, value, j, _, _, found, _⟩ := writes
    obtain ⟨data, packed⟩ := Channel.mem_words (List.mem_of_getElem? found)
    exact ⟨c.place.address, (sound.placed c member).2, data, packed⟩

/-- What a device writes for the address of a channel was written by that channel. -/
theorem Device.Sound.writes_own_iff {d : Device} (good : d.Sound) (alone : ¬ d.sharesAddress) {c : Channel}
    (onDevice : c ∈ d.channels) {tick : Nat} {word : Word} :
    d.Writes tick word ∧ word.address = c.place.address ↔ c.Writes tick word := by
  have address : ∀ other ∈ d.channels, other.Writes tick word → word.address = other.place.address := by
    rintro other member ⟨_, _, _, _, _, found, _⟩
    obtain ⟨data, rfl⟩ := Channel.mem_words (List.mem_of_getElem? found)
    exact Word.address_pack (good.addressed _ (good.placed other member).2) data
  rw [Device.Writes, if_neg alone]
  constructor
  · rintro ⟨⟨other, member, writes⟩, same⟩
    rw [address other member writes] at same
    rw [good.separate alone c onDevice other member same.symm]
    exact writes
  · intro writes
    exact ⟨⟨c, onDevice, writes⟩, address c onDevice writes⟩

/-- What a bank writes is for its address. -/
theorem Device.Sound.writes_bank_iff {d : Device} (good : d.Sound) (shares : d.sharesAddress)
    {tick : Nat} {word : Word} : d.Writes tick word ∧ word.address = d.address ↔ d.Writes tick word := by
  refine and_iff_left_of_imp fun writes => ?_
  rw [Device.Writes, if_pos shares] at writes
  rw [writes.2.1]
  exact Word.address_pack (good.addressed _ (address_mem shares)) _

end Sequencer
