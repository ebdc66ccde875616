import Sequencer.Link.Chunks
import Sequencer.Number.Power

/-!
The pieces of a stream are the stream, whatever the length of a piece.

A counter goes on by its interval until it stands at the end. If whole intervals lead it there, or past it, within 64
bits, no piece wraps around, and the pieces lie end to end. That is so in every stream of up to half the range.
-/
namespace Sequencer

namespace ChunkCounter
variable {c mid last : ChunkCounter} {chunk : UInt64 × UInt64} {chunks : List (UInt64 × UInt64)}

/-! ### One chunk -/

theorem next?_eq_none_iff : c.next? = none ↔ c.stop.toNat ≤ c.position.toNat := by
  unfold next?
  rw [← UInt64.le_iff_toNat_le]
  split
  · rename_i ended
    exact ⟨fun _ => ended, fun _ => rfl⟩
  · rename_i more
    exact ⟨nofun, fun ended => absurd ended more⟩

/-- The next chunk goes on by an interval, as far as 64 bits can tell, or to the end. -/
theorem next?_eq (more : c.position.toNat < c.stop.toNat) :
    ∃ stop : UInt64, c.next? = some ((c.position, stop), { c with position := stop }) ∧
      stop.toNat = min ((c.position.toNat + c.interval.toNat) % 2 ^ 64) c.stop.toNat := by
  have onward : ¬c.stop ≤ c.position := by
    rw [UInt64.le_iff_toNat_le]
    omega
  refine ⟨min (c.position + c.interval) c.stop, if_neg onward, ?_⟩
  rw [← UInt64.toNat_add]
  show (if c.position + c.interval ≤ c.stop then c.position + c.interval else c.stop).toNat = _
  split
  · rename_i before
    exact (Nat.min_eq_left (UInt64.le_iff_toNat_le.mp before)).symm
  · rename_i beyond
    rw [UInt64.le_iff_toNat_le] at beyond
    omega

theorem next?_cases (next : c.next? = some (chunk, mid)) : c.position.toNat < c.stop.toNat ∧
    ∃ stop : UInt64, chunk = (c.position, stop) ∧ mid = { c with position := stop } ∧
      stop.toNat = min ((c.position.toNat + c.interval.toNat) % 2 ^ 64) c.stop.toNat := by
  have more : c.position.toNat < c.stop.toNat := by
    refine Nat.lt_of_not_le fun ended => ?_
    rw [next?_eq_none_iff.mpr ended] at next
    cases next
  obtain ⟨stop, step, place⟩ := next?_eq more
  rw [step] at next
  cases next
  exact ⟨more, stop, rfl, rfl, place⟩

/-! ### Chunk after chunk -/

/-- A counter gives these chunks, one after the other, and is then at this place. -/
inductive Yields : ChunkCounter → List (UInt64 × UInt64) → ChunkCounter → Prop
  | stay (c : ChunkCounter) : Yields c [] c
  | step {c mid last : ChunkCounter} {chunk : UInt64 × UInt64} {chunks : List (UInt64 × UInt64)}
      (next : c.next? = some (chunk, mid)) (later : Yields mid chunks last) : Yields c (chunk :: chunks) last

/-- All that a counter gives. -/
def Gives (c : ChunkCounter) (chunks : List (UInt64 × UInt64)) : Prop :=
  ∃ last, c.Yields chunks last ∧ last.next? = none

/-- Only the place changes, and it is not past the end. -/
theorem Yields.within (yields : c.Yields chunks mid) (within : c.position.toNat ≤ c.stop.toNat) :
    mid.stop = c.stop ∧ mid.interval = c.interval ∧ mid.position.toNat ≤ c.stop.toNat := by
  induction yields with
  | stay c => exact ⟨rfl, rfl, within⟩
  | step next later ih =>
    obtain ⟨_, stop, _, rfl, place⟩ := next?_cases next
    exact ih (place ▸ Nat.min_le_right _ _)

theorem Yields.take (yields : c.Yields chunks last) (done : last.next? = none) {fuel : Nat}
    (enough : chunks.length ≤ fuel) : c.take fuel = chunks := by
  induction yields generalizing fuel with
  | stay c =>
    cases fuel with
    | zero => rfl
    | succ fuel => rw [ChunkCounter.take, done]
  | step next later ih =>
    cases fuel with
    | zero => exact absurd enough (Nat.not_succ_le_zero _)
    | succ fuel =>
      rw [ChunkCounter.take, next]
      exact congrArg _ (ih done (Nat.le_of_succ_le_succ enough))

/-! ### Chunks end to end -/

/-- Chunks from one place to another, each where the one before ended. None is empty, and none but the last is shorter
than the interval. -/
inductive Tiles (interval : Nat) : UInt64 → List (UInt64 × UInt64) → UInt64 → Prop
  | none (a : UInt64) : Tiles interval a [] a
  | more {a b z : UInt64} {rest : List (UInt64 × UInt64)} (forward : a < b) (limit : b.toNat ≤ a.toNat + interval)
      (whole : rest ≠ [] → b.toNat = a.toNat + interval) (later : Tiles interval b rest z) :
      Tiles interval a ((a, b) :: rest) z

/-- The part of a list between two positions. -/
def slice {α : Type} (items : List α) (chunk : UInt64 × UInt64) : List α :=
  (items.take chunk.2.toNat).drop chunk.1.toNat

section
variable {interval : Nat} {a z : UInt64}

theorem Tiles.length_le (tiles : Tiles interval a chunks z) : a.toNat + chunks.length ≤ z.toNat := by
  induction tiles with
  | none a => exact Nat.le_refl _
  | more forward _ _ _ ih =>
    rw [UInt64.lt_iff_toNat_lt] at forward
    rw [List.length_cons]
    omega

/-- The slices are what lies between the two places. -/
theorem Tiles.slices_append {α : Type} {items : List α} (tiles : Tiles interval a chunks z)
    (inside : z.toNat ≤ items.length) :
    (chunks.map (slice items)).flatten ++ items.drop z.toNat = items.drop a.toNat := by
  induction tiles with
  | none a => rfl
  | @more a b z rest forward _ _ later ih =>
    have bounds := later.length_le
    rw [UInt64.lt_iff_toNat_lt] at forward
    have split := congrArg (List.drop a.toNat) (List.take_append_drop b.toNat items)
    rw [List.drop_append_of_le_length (by rw [List.length_take]; omega)] at split
    rw [List.map_cons, List.flatten_cons, List.append_assoc, ih inside]
    exact split

theorem Tiles.slices_flatten {α : Type} {items : List α} (tiles : Tiles interval 0 chunks z)
    (all : z.toNat = items.length) : (chunks.map (slice items)).flatten = items := by
  have joined := tiles.slices_append (Nat.le_of_eq all)
  rwa [all, List.drop_length, List.append_nil] at joined

theorem Tiles.slices_nonempty {α : Type} {items : List α} (tiles : Tiles interval a chunks z)
    (inside : z.toNat ≤ items.length) : ∀ piece ∈ chunks.map (slice items), piece ≠ [] := by
  induction tiles with
  | none a => exact fun _ impossible => absurd impossible List.not_mem_nil
  | @more a b z rest forward _ _ later ih =>
    have bounds := later.length_le
    rw [UInt64.lt_iff_toNat_lt] at forward
    rw [List.map_cons, List.forall_mem_cons]
    refine ⟨List.ne_nil_of_length_pos ?_, ih inside⟩
    rw [slice, List.length_drop, List.length_take]
    dsimp only
    omega

end

/-! ### Counters that do not wrap around -/

/-- Whole intervals lead to the end or past it, and not out of 64 bits. -/
def HasRoom (c : ChunkCounter) : Prop :=
  ∃ k, c.stop.toNat ≤ c.position.toNat + k * c.interval.toNat ∧ c.position.toNat + k * c.interval.toNat < 2 ^ 64

theorem HasRoom.sum_lt (room : c.HasRoom) (more : c.position.toNat < c.stop.toNat) :
    c.position.toNat + c.interval.toNat < 2 ^ 64 := by
  obtain ⟨k, past, range⟩ := room
  cases k with
  | zero => omega
  | succ k =>
    rw [Nat.succ_mul] at range
    omega

/-- The next chunk goes on by an interval, or to the end, and leaves room. -/
theorem HasRoom.next (room : c.HasRoom) (more : c.position.toNat < c.stop.toNat) :
    ∃ stop : UInt64, c.next? = some ((c.position, stop), { c with position := stop }) ∧ c.position < stop ∧
      stop.toNat = min (c.position.toNat + c.interval.toNat) c.stop.toNat ∧
      { c with position := stop }.HasRoom := by
  obtain ⟨stop, step, place⟩ := next?_eq more
  rw [Nat.mod_eq_of_lt (room.sum_lt more)] at place
  obtain ⟨k, past, range⟩ := room
  cases k with
  | zero => omega
  | succ k =>
    have advances : c.interval.toNat ≠ 0 := by
      intro none
      rw [none, Nat.mul_zero] at past
      omega
    rw [Nat.succ_mul] at past range
    refine ⟨stop, step, UInt64.lt_iff_toNat_lt.mpr (by omega), place, ?_⟩
    rcases Nat.le_total (c.position.toNat + c.interval.toNat) c.stop.toNat with before | beyond
    · rw [Nat.min_eq_left before] at place
      exact ⟨k, by dsimp only; omega, by dsimp only; omega⟩
    · rw [Nat.min_eq_right beyond] at place
      exact ⟨0, by dsimp only; omega, by dsimp only; omega⟩

theorem Yields.tiles (yields : c.Yields chunks mid) (room : c.HasRoom) :
    Tiles c.interval.toNat c.position chunks mid.position ∧ mid.HasRoom := by
  induction yields with
  | stay c => exact ⟨.none _, room⟩
  | @step c mid last chunk chunks next later ih =>
    obtain ⟨stop, step, forward, place, room'⟩ := room.next (next?_cases next).1
    rw [step] at next
    cases next
    obtain ⟨tiles, room''⟩ := ih room'
    refine ⟨.more forward (place ▸ Nat.min_le_left _ _) (fun goesOn => ?_) tiles, room''⟩
    -- A chunk that ends at the end is the last one.
    cases later with
    | stay => exact absurd rfl goesOn
    | step next' _ =>
      have inside := (next?_cases next').1
      dsimp only at inside
      omega

theorem HasRoom.gives (room : c.HasRoom) : ∃ chunks, c.Gives chunks := by
  generalize left : c.stop.toNat - c.position.toNat = n
  induction n using Nat.strongRecOn generalizing c with
  | ind n ih =>
    by_cases more : c.position.toNat < c.stop.toNat
    · obtain ⟨stop, step, forward, _, room'⟩ := room.next more
      rw [UInt64.lt_iff_toNat_lt] at forward
      obtain ⟨chunks, last, yields, done⟩ := ih _ (by dsimp only; omega) room' rfl
      exact ⟨_, last, .step step yields, done⟩
    · exact ⟨[], c, .stay c, next?_eq_none_iff.mpr (Nat.not_lt.mp more)⟩

theorem Gives.ends (gives : c.Gives chunks) (within : c.position.toNat ≤ c.stop.toNat) :
    ∃ last, c.Yields chunks last ∧ last.next? = none ∧ last.position = c.stop := by
  obtain ⟨last, yields, done⟩ := gives
  obtain ⟨sameStop, _, inside⟩ := yields.within within
  have past := next?_eq_none_iff.mp done
  rw [sameStop] at past
  exact ⟨last, yields, done, UInt64.toNat_inj.mp (Nat.le_antisymm inside past)⟩

/-- What a counter with room gives is the whole of its range. -/
theorem HasRoom.gives_tiles (room : c.HasRoom) (gives : c.Gives chunks) (within : c.position.toNat ≤ c.stop.toNat) :
    Tiles c.interval.toNat c.position chunks c.stop := by
  obtain ⟨last, yields, _, place⟩ := gives.ends within
  exact place ▸ (yields.tiles room).1

/-! ### From zero -/

theorem start_interval (stop interval : UInt64) : (start stop interval).interval.toNat = max interval.toNat 1 := by
  show (if interval ≤ 1 then 1 else interval : UInt64).toNat = _
  split
  · rename_i small
    rw [UInt64.le_iff_toNat_le] at small
    exact (Nat.max_eq_right small).symm
  · rename_i large
    rw [UInt64.le_iff_toNat_le] at large
    exact (Nat.max_eq_left (Nat.le_of_not_le large)).symm

theorem start_hasRoom_iff {stop interval : UInt64} : (start stop interval).HasRoom ↔
    ∃ k, stop.toNat ≤ k * max interval.toNat 1 ∧ k * max interval.toNat 1 < 2 ^ 64 := by
  unfold HasRoom
  rw [start_interval]
  show (∃ k, stop.toNat ≤ 0 + _ ∧ 0 + _ < 2 ^ 64) ↔ _
  simp only [Nat.zero_add]

/-- Past the first chunk, a whole interval from zero, no sum can leave 64 bits before the end. -/
theorem start_hasRoom {stop interval : UInt64} (short : stop.toNat ≤ 2 ^ 63) : (start stop interval).HasRoom := by
  rw [start_hasRoom_iff]
  generalize width : max interval.toNat 1 = step
  have range := interval.toNat_lt
  by_cases single : stop.toNat ≤ step
  · exact ⟨1, by omega, by omega⟩
  · refine ⟨stop.toNat / step + 1, ?_⟩
    have split := Nat.div_add_mod' stop.toNat step
    have rest := Nat.mod_lt stop.toNat (show step > 0 by omega)
    rw [Nat.succ_mul]
    omega

end ChunkCounter

open ChunkCounter

section
variable {α : Type} {items : List α}

/-- There are enough items for all chunks. -/
theorem chunksOf_eq {stop interval : UInt64} {chunks : List (UInt64 × UInt64)} (length : items.length = stop.toNat)
    (room : (start stop interval).HasRoom) (gives : (start stop interval).Gives chunks) :
    chunksOf interval items = chunks.map (slice items) := by
  have few := (room.gives_tiles gives (Nat.zero_le _)).length_le
  have same : items.length.toUInt64 = stop := by
    rw [length]
    exact UInt64.ofNat_toNat
  obtain ⟨last, yields, done⟩ := gives
  rw [chunksOf, same, yields.take done (length ▸ Nat.le_trans (Nat.le_add_left _ _) few)]
  rfl

theorem chunksOf_tiles (interval : UInt64) (short : items.length < 2 ^ 63) : ∃ step chunks stop,
    Tiles step 0 chunks stop ∧ stop.toNat = items.length ∧ chunksOf interval items = chunks.map (slice items) := by
  have length : items.length.toUInt64.toNat = items.length :=
    UInt64.toNat_ofNat_of_lt (Nat.lt_trans short (by decide))
  have room : (start items.length.toUInt64 interval).HasRoom := start_hasRoom (length.symm ▸ Nat.le_of_lt short)
  obtain ⟨chunks, gives⟩ := room.gives
  exact ⟨_, chunks, _, room.gives_tiles gives (Nat.zero_le _), length, chunksOf_eq length.symm room gives⟩

theorem chunksOf_flatten (interval : UInt64) (short : items.length < 2 ^ 63) :
    (chunksOf interval items).flatten = items := by
  obtain ⟨_, chunks, _, tiles, length, cut⟩ := chunksOf_tiles interval short
  rw [cut]
  exact tiles.slices_flatten length

theorem chunksOf_nonempty (interval : UInt64) (short : items.length < 2 ^ 63) :
    ∀ piece ∈ chunksOf interval items, piece ≠ [] := by
  obtain ⟨_, chunks, _, tiles, length, cut⟩ := chunksOf_tiles interval short
  rw [cut]
  exact tiles.slices_nonempty (Nat.le_of_eq length)

end

end Sequencer
