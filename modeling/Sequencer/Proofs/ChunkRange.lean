import Mathlib.Data.Int.GCD
import Sequencer.Proofs.Chunks

/-!
Which ranges a counter cuts up.

The sum of a position and the interval is a number of 64 bits, and is taken before it is held against the end. If a
multiple of the interval lies between the end and `2 ^ 64`, the sum never wraps around, and the chunks are the range.
Otherwise whole intervals lead to a sum that does: the next chunk runs back to where the sum has come out, and the
counter goes on from there, for ever unless a multiple that has wrapped around comes to lie at the end or past it.
-/
namespace Sequencer

/-- How far the multiples of a step come, as remainders: to a greatest common divisor below the modulus. -/
theorem le_multiple_mod_iff {step modulus bound : Nat} (positive : 0 < modulus) :
    (∃ n, bound ≤ n * step % modulus) ↔ bound + Nat.gcd step modulus ≤ modulus := by
  have divides : Nat.gcd step modulus ∣ modulus := Nat.gcd_dvd_right _ _
  constructor
  · rintro ⟨n, high⟩
    have multiple : Nat.gcd step modulus ∣ n * step % modulus :=
      (Nat.dvd_mod_iff divides).mpr (Nat.dvd_mul_left_of_dvd (Nat.gcd_dvd_left _ _) n)
    have below := Nat.mod_lt (n * step) positive
    have gap := Nat.le_of_dvd (Nat.sub_pos_of_lt below) (Nat.dvd_sub divides multiple)
    omega
  · intro bounded
    rcases Nat.lt_or_ge (Nat.gcd step modulus) modulus with proper | improper
    · obtain ⟨m, _, least⟩ := Nat.exists_mul_mod_eq_gcd proper
      obtain ⟨parts, all⟩ := divides
      have highest : m * (parts - 1) * step % modulus = modulus - Nat.gcd step modulus := by
        calc m * (parts - 1) * step % modulus = step * m * (parts - 1) % modulus := by
              rw [Nat.mul_comm (m * _), Nat.mul_assoc]
          _ = Nat.gcd step modulus * (parts - 1) % modulus := by rw [Nat.mul_mod, least, Nat.mul_mod_mod]
          _ = (modulus - Nat.gcd step modulus) % modulus := by rw [Nat.mul_sub_one, ← all]
          _ = modulus - Nat.gcd step modulus :=
              Nat.mod_eq_of_lt (Nat.sub_lt positive (Nat.gcd_pos_of_pos_right _ positive))
      exact ⟨m * (parts - 1), by omega⟩
    · exact ⟨0, by omega⟩

namespace ChunkCounter
variable {c mid : ChunkCounter} {chunks : List (UInt64 × UInt64)}

/-! ### Where a counter stands, wrapped around or not -/

theorem Yields.remaining_eq (yields : c.Yields chunks mid) (within : c.position.toNat ≤ c.stop.toNat) :
    mid.position ≤ c.stop ∧ mid.remaining.toNat = c.stop.toNat - mid.position.toNat := by
  obtain ⟨sameStop, _, inside⟩ := yields.within within
  have before : mid.position ≤ c.stop := UInt64.le_iff_toNat_le.mpr inside
  refine ⟨before, ?_⟩
  rw [remaining, sameStop, UInt64.toNat_sub_of_le _ _ before]

/-- After so many chunks the position is that multiple of the interval, or the end. -/
theorem Yields.position_eq (yields : c.Yields chunks mid) (within : c.position.toNat ≤ c.stop.toNat) :
    mid.position.toNat =
      min ((c.position.toNat + chunks.length * c.interval.toNat) % 2 ^ 64) c.stop.toNat := by
  induction yields with
  | stay c =>
    have range := c.position.toNat_lt
    rw [List.length_nil, Nat.zero_mul, Nat.add_zero, Nat.mod_eq_of_lt range, Nat.min_eq_left within]
  | @step c _ last _ chunks next later ih =>
    obtain ⟨more, stop, _, rfl, place⟩ := next?_cases next
    rcases Nat.le_total ((c.position.toNat + c.interval.toNat) % 2 ^ 64) c.stop.toNat with before | beyond
    · rw [Nat.min_eq_left before] at place
      rw [ih (place.trans_le before), List.length_cons, Nat.succ_mul]
      dsimp only
      rw [place, Nat.mod_add_mod]
      congr 2
      omega
    -- A counter that stands at the end gives nothing more.
    · rw [Nat.min_eq_right beyond] at place
      cases later with
      | stay =>
        rw [List.length_singleton, Nat.one_mul, Nat.min_eq_right beyond]
        exact place
      | step next' _ => exact absurd place (Nat.ne_of_lt (next?_cases next').1)

theorem gives_or_goes_on (c : ChunkCounter) (n : Nat) :
    (∃ chunks, c.Gives chunks) ∨ ∃ chunks mid, c.Yields chunks mid ∧ chunks.length = n ∧ mid.next? ≠ none := by
  induction n generalizing c with
  | zero =>
    by_cases done : c.next? = none
    · exact .inl ⟨[], c, .stay c, done⟩
    · exact .inr ⟨[], c, .stay c, rfl, done⟩
  | succ n ih =>
    cases next : c.next? with
    | none => exact .inl ⟨[], c, .stay c, next⟩
    | some result =>
      rcases ih result.2 with ⟨chunks, last, yields, done⟩ | ⟨chunks, mid, yields, length, more⟩
      · exact .inl ⟨_, last, .step next yields, done⟩
      · exact .inr ⟨_, mid, .step next yields, congrArg Nat.succ length, more⟩

/-- A counter comes to an end exactly if some multiple of its interval comes out there or past it. -/
theorem gives_iff (within : c.position.toNat ≤ c.stop.toNat) : (∃ chunks, c.Gives chunks) ↔
    ∃ n, c.stop.toNat ≤ (c.position.toNat + n * c.interval.toNat) % 2 ^ 64 := by
  constructor
  · rintro ⟨chunks, gives⟩
    obtain ⟨last, yields, _, place⟩ := gives.ends within
    have law := yields.position_eq within
    rw [place] at law
    exact ⟨chunks.length, law.trans_le (Nat.min_le_left _ _)⟩
  · rintro ⟨n, past⟩
    rcases c.gives_or_goes_on n with gives | ⟨chunks, mid, yields, rfl, more⟩
    · exact gives
    · have law := yields.position_eq within
      rw [Nat.min_eq_right past, ← (yields.within within).1] at law
      exact absurd (next?_eq_none_iff.mpr law.ge) more

theorem start_gives_iff (stop interval : UInt64) : (∃ chunks, (start stop interval).Gives chunks) ↔
    stop.toNat + Nat.gcd (max interval.toNat 1) (2 ^ 64) ≤ 2 ^ 64 := by
  rw [gives_iff (Nat.zero_le _), ← le_multiple_mod_iff (Nat.two_pow_pos 64), start_interval]
  show (∃ n, stop.toNat ≤ (0 + _) % 2 ^ 64) ↔ _
  simp only [Nat.zero_add]

/-! ### Counters that wrap around -/

/-- Without room a counter gives whole intervals until a sum does not fit. -/
theorem sum_overflows (crowded : ¬c.HasRoom) (advances : 0 < c.interval.toNat) : ∃ chunks mid,
    c.Yields chunks mid ∧ Tiles c.interval.toNat c.position chunks mid.position ∧
      mid.position.toNat < mid.stop.toNat ∧ 2 ^ 64 ≤ mid.position.toNat + mid.interval.toNat := by
  -- By what is left of the range: a step that fits leaves less of it, and no more room than before.
  generalize left : c.stop.toNat - c.position.toNat = n
  induction n using Nat.strongRecOn generalizing c with
  | ind n ih =>
    have range := c.position.toNat_lt
    have more : c.position.toNat < c.stop.toNat := by
      refine Nat.lt_of_not_le fun ended => crowded ⟨0, ?_, ?_⟩ <;> omega
    by_cases fits : c.position.toNat + c.interval.toNat < 2 ^ 64
    · have before : c.position.toNat + c.interval.toNat < c.stop.toNat := by
        refine Nat.lt_of_not_le fun past => crowded ⟨1, ?_, ?_⟩ <;> omega
      obtain ⟨stop, step, place⟩ := next?_eq more
      rw [Nat.mod_eq_of_lt fits, Nat.min_eq_left (Nat.le_of_lt before)] at place
      have crowded' : ¬{ c with position := stop }.HasRoom := by
        rintro ⟨k, past, within⟩
        dsimp only at past within
        refine crowded ⟨k + 1, ?_, ?_⟩ <;> rw [Nat.succ_mul] <;> omega
      obtain ⟨chunks, mid, yields, tiles, inside, beyond⟩ := ih _ (by dsimp only; omega) crowded' advances rfl
      refine ⟨_, mid, .step step yields, .more ?_ (Nat.le_of_eq place) (fun _ => place) tiles, inside, beyond⟩
      rw [UInt64.lt_iff_toNat_lt]
      omega
    · exact ⟨[], c, .stay c, .none _, more, Nat.not_lt.mp fits⟩

/-- The chunk of a sum that does not fit runs back. -/
theorem next?_runs_back (more : c.position.toNat < c.stop.toNat)
    (beyond : 2 ^ 64 ≤ c.position.toNat + c.interval.toNat) : ∃ back : UInt64,
    c.next? = some ((c.position, back), { c with position := back }) ∧
      back.toNat + 2 ^ 64 = c.position.toNat + c.interval.toNat ∧ back < c.position := by
  obtain ⟨back, step, place⟩ := next?_eq more
  have range := c.position.toNat_lt
  have width := c.interval.toNat_lt
  have wrapped : (c.position.toNat + c.interval.toNat) % 2 ^ 64 =
      c.position.toNat + c.interval.toNat - 2 ^ 64 := by
    rw [Nat.mod_eq_sub_mod beyond, Nat.mod_eq_of_lt (by omega)]
  rw [wrapped] at place
  exact ⟨back, step, by omega, UInt64.lt_iff_toNat_lt.mpr (by omega)⟩

/-! ### Ranges that are cut up -/

/-- A counter comes to an end without a sum that overflows, and what it has given lies end to end from its place to the
end of its range. -/
structure CutsUp (c : ChunkCounter) : Prop where
  sums : ∀ chunks mid, c.Yields chunks mid → mid.next? ≠ none →
    mid.position.toNat + mid.interval.toNat < 2 ^ 64
  ends : ∃ chunks, c.Gives chunks
  tiles : ∀ chunks, c.Gives chunks → Tiles c.interval.toNat c.position chunks c.stop

theorem HasRoom.cutsUp (room : c.HasRoom) (within : c.position.toNat ≤ c.stop.toNat) : c.CutsUp where
  sums _ _ yields more :=
    (yields.tiles room).2.sum_lt (Nat.lt_of_not_le fun ended => more (next?_eq_none_iff.mpr ended))
  ends := room.gives
  tiles _ gives := room.gives_tiles gives within

theorem CutsUp.hasRoom (cut : c.CutsUp) (advances : 0 < c.interval.toNat) : c.HasRoom := by
  by_contra crowded
  obtain ⟨chunks, mid, yields, _, inside, beyond⟩ := sum_overflows crowded advances
  have more : mid.next? ≠ none := fun done => Nat.not_le_of_lt inside (next?_eq_none_iff.mp done)
  exact Nat.not_lt.mpr beyond (cut.sums chunks mid yields more)

theorem start_cutsUp_iff {stop interval : UInt64} :
    (start stop interval).CutsUp ↔ (start stop interval).HasRoom := by
  have advances : 0 < (start stop interval).interval.toNat := by
    rw [start_interval]
    omega
  exact ⟨fun cut => cut.hasRoom advances, fun room => room.cutsUp (Nat.zero_le _)⟩

/--
A counter over any range, with any interval; zero counts as one. What remains is told exactly at every point. The range
is cut up, without an overflow and to its end, if and only if some multiple of the interval lies at its end or past it
within 64 bits. That holds up to half the range of 64 bits, and the slices of a payload then are the payload. In any
other range whole intervals lead to a sum that overflows, and the chunk that it ends runs back. The counter comes to an
end all the same, unless the end lies closer to `2 ^ 64` than the power of two in the interval.
-/
theorem cut_up_unless_sum_overflows (stop interval : UInt64) :
    let c := start stop interval
    let step := max interval.toNat 1
    (∀ chunks mid, c.Yields chunks mid →
      mid.position ≤ stop ∧ mid.remaining.toNat = stop.toNat - mid.position.toNat) ∧
    (c.CutsUp ↔ ∃ k, stop.toNat ≤ k * step ∧ k * step < 2 ^ 64) ∧
    (stop.toNat ≤ 2 ^ 63 → c.CutsUp) ∧
    (c.CutsUp → ∀ (α : Type) (payload : List α), payload.length = stop.toNat → ∃ chunks, c.Gives chunks ∧
      chunksOf interval payload = chunks.map (slice payload) ∧ (chunks.map (slice payload)).flatten = payload) ∧
    (¬c.CutsUp → ∃ chunks mid back, c.Yields chunks mid ∧ Tiles step 0 chunks mid.position ∧
      mid.next? = some ((mid.position, back), { mid with position := back }) ∧
      back.toNat + 2 ^ 64 = mid.position.toNat + step ∧ back < mid.position) ∧
    ((∃ chunks, c.Gives chunks) ↔ stop.toNat + Nat.gcd step (2 ^ 64) ≤ 2 ^ 64) := by
  intro c step
  have within : c.position.toNat ≤ c.stop.toNat := Nat.zero_le _
  have width : c.interval.toNat = step := start_interval stop interval
  refine ⟨fun chunks mid yields => yields.remaining_eq within, start_cutsUp_iff.trans start_hasRoom_iff,
    fun short => (start_hasRoom short).cutsUp within, fun cut α payload length => ?_, fun uncut => ?_,
    start_gives_iff stop interval⟩
  · obtain ⟨chunks, gives⟩ := cut.ends
    exact ⟨chunks, gives, chunksOf_eq length (start_cutsUp_iff.mp cut) gives,
      (cut.tiles chunks gives).slices_flatten length.symm⟩
  · have advances : 0 < c.interval.toNat := width ▸ Nat.le_max_right _ _
    obtain ⟨chunks, mid, yields, tiles, inside, beyond⟩ :=
      sum_overflows (fun room => uncut (room.cutsUp within)) advances
    obtain ⟨back, next, sum, backward⟩ := next?_runs_back inside beyond
    rw [(yields.within within).2.1, width] at sum
    rw [width] at tiles
    exact ⟨chunks, mid, back, yields, tiles, next, sum, backward⟩

/-- A range that ends with the last multiple of `2 ^ 62 - 1` below `2 ^ 64`, and ten items in pieces of four. -/
theorem last_multiple_cut_up :
    (start 18446744073709551612 4611686018427387903).CutsUp ∧
    (chunksOf 4 (List.range 10)).flatten = List.range 10 ∧
    chunksOf 4 (List.range 10) = [[0, 1, 2, 3], [4, 5, 6, 7], [8, 9]] := by
  obtain ⟨_, fits, _⟩ := cut_up_unless_sum_overflows 18446744073709551612 4611686018427387903
  obtain ⟨_, _, short, payload, _⟩ := cut_up_unless_sum_overflows 10 4
  obtain ⟨chunks, _, pieces, whole⟩ := payload (short (by decide)) Nat (List.range 10) (by decide)
  exact ⟨fits.mpr ⟨4, by decide, by decide⟩, pieces ▸ whole, by decide⟩

/-- A range of `2 ^ 63 + 2` in chunks of `2 ^ 63 + 1`: the second chunk runs back to 2. With both one less the counter
never comes to an end. -/
theorem second_chunk_runs_back :
    (start 9223372036854775810 9223372036854775809).Gives [(0, 9223372036854775809), (9223372036854775809, 2),
      (2, 9223372036854775810)] ∧
    ¬(start 9223372036854775810 9223372036854775809).CutsUp ∧
    ¬∃ chunks, (start 9223372036854775809 9223372036854775808).Gives chunks := by
  have gives : (start 9223372036854775810 9223372036854775809).Gives [(0, 9223372036854775809),
      (9223372036854775809, 2), (2, 9223372036854775810)] :=
    ⟨_, .step rfl (.step rfl (.step rfl (.stay _))), rfl⟩
  refine ⟨gives, fun cut => ?_, ?_⟩
  · cases cut.tiles _ gives with
    | more _ _ _ later =>
      cases later with
      | more forward => exact absurd forward (by decide)
  · rw [start_gives_iff]
    decide

end ChunkCounter

end Sequencer
