import Sequencer.Stream.Plan

/-!
Items in ascending order of their ticks. `lastUpTo` picks what counts at a tick: the last item up to
and including it. On strictly ascending items it is the one with the greatest such tick.
-/
namespace Sequencer

/-- The last item whose tick does not exceed the given one. -/
def lastUpTo {α : Type} (tickOf : α → Nat) (tick : Nat) (items : List α) : Option α :=
  (items.filter fun x => tickOf x ≤ tick).getLast?

/-- The value of the last sample up to and including a tick. -/
def heldAt (samples : List (Nat × Float)) (tick : Nat) : Option Float :=
  (lastUpTo Prod.fst tick samples).map Prod.snd

/-- The value of the last sample before a tick. -/
def heldBefore (samples : List (Nat × Float)) (tick : Nat) : Option Float :=
  ((samples.filter fun s => s.1 < tick).getLast?).map Prod.snd

theorem heldBefore_succ (samples : List (Nat × Float)) (tick : Nat) :
    heldBefore samples (tick + 1) = heldAt samples tick := by
  simp only [heldBefore, heldAt, lastUpTo, Nat.lt_succ_iff]

/-- Strictly ascending ticks. -/
def Ascending {α : Type} (tickOf : α → Nat) (items : List α) : Prop :=
  items.Pairwise fun x y => tickOf x < tickOf y

section
variable {α β : Type} {tickOf : α → Nat} {tick : Nat} {items : List α}

theorem mem_of_lastUpTo {x : α} (found : lastUpTo tickOf tick items = some x) :
    x ∈ items ∧ tickOf x ≤ tick := by
  have member := List.mem_of_getLast? found
  simpa using member

theorem lastUpTo_eq_none_iff : lastUpTo tickOf tick items = none ↔ ∀ x ∈ items, tick < tickOf x := by
  rw [lastUpTo, List.getLast?_eq_none_iff, List.filter_eq_nil_iff]
  simp

theorem lastUpTo_append (first second : List α) :
    lastUpTo tickOf tick (first ++ second) =
      (lastUpTo tickOf tick second).or (lastUpTo tickOf tick first) := by
  rw [lastUpTo, List.filter_append, List.getLast?_append]
  rfl

theorem lastUpTo_cons (x : α) (rest : List α) :
    lastUpTo tickOf tick (x :: rest) =
      (lastUpTo tickOf tick rest).or (if tickOf x ≤ tick then some x else none) := by
  have split := @lastUpTo_append α tickOf tick [x] rest
  by_cases before : tickOf x ≤ tick
  · simpa [lastUpTo, before] using split
  · simp [lastUpTo, before]

theorem lastUpTo_map (f : β → α) (inputs : List β) :
    lastUpTo tickOf tick (inputs.map f) =
      (lastUpTo (fun x => tickOf (f x)) tick inputs).map f := by
  rw [lastUpTo, List.filter_map, List.getLast?_map]
  rfl

/-- A later tick holds the same if nothing lies between. -/
theorem lastUpTo_congr {later : Nat} (inOrder : tick ≤ later)
    (between : ∀ x ∈ items, tickOf x ≤ later → tickOf x ≤ tick) :
    lastUpTo tickOf tick items = lastUpTo tickOf later items := by
  unfold lastUpTo
  congr 1
  refine List.filter_congr fun x member => ?_
  have := between x member
  simp only [decide_eq_decide]
  omega

/-- Nothing counts yet when everything lies beyond the tick. -/
theorem lastUpTo_beyond (beyond : ∀ x ∈ items, tick < tickOf x) :
    lastUpTo tickOf tick items = none :=
  lastUpTo_eq_none_iff.mpr beyond

theorem Ascending.filter (order : Ascending tickOf items) (p : α → Bool) :
    Ascending tickOf (items.filter p) :=
  order.sublist List.filter_sublist

theorem Ascending.le_getLast (order : Ascending tickOf items) {x y : α}
    (last : items.getLast? = some x) (member : y ∈ items) : tickOf y ≤ tickOf x := by
  obtain ⟨earlier, split⟩ := List.getLast?_eq_some_iff.mp last
  rw [split] at order member
  rcases List.mem_append.mp member with inEarlier | isLast
  · exact Nat.le_of_lt (List.pairwise_append.mp order |>.2.2 y inEarlier x (by simp))
  · exact Nat.le_of_eq (congrArg tickOf (List.mem_singleton.mp isLast))

theorem Ascending.head?_eq (order : Ascending tickOf items) {x : α} (member : x ∈ items)
    (least : ∀ y ∈ items, tickOf x ≤ tickOf y) : items.head? = some x := by
  cases items with
  | nil => cases member
  | cons first rest =>
    rcases List.mem_cons.mp member with rfl | later
    · rfl
    · have := (List.pairwise_cons.mp order).1 x later
      have := least first (by simp)
      omega

theorem Ascending.getLast?_eq (order : Ascending tickOf items) {x : α} (member : x ∈ items)
    (greatest : ∀ y ∈ items, tickOf y ≤ tickOf x) : items.getLast? = some x := by
  obtain ⟨before, after, rfl⟩ := List.append_of_mem member
  cases after with
  | nil => simp
  | cons next after =>
    have tail := (List.pairwise_append.mp order).2.1
    have := (List.pairwise_cons.mp tail).1 next (by simp)
    have := greatest next (by simp)
    omega

theorem Ascending.le_lastUpTo (order : Ascending tickOf items) {x : α}
    (found : lastUpTo tickOf tick items = some x) {y : α} (member : y ∈ items)
    (before : tickOf y ≤ tick) : tickOf y ≤ tickOf x :=
  (order.filter _).le_getLast found (by simp [member, before])

/-- In ascending items a tick says which item it is. -/
theorem Ascending.eq_of_tick (order : Ascending tickOf items) {x y : α} (hx : x ∈ items)
    (hy : y ∈ items) (same : tickOf x = tickOf y) : x = y := by
  induction items with
  | nil => simp at hx
  | cons first rest ih =>
    obtain ⟨below, sorted⟩ := List.pairwise_cons.mp order
    rcases List.mem_cons.mp hx with xFirst | xLater
    · rcases List.mem_cons.mp hy with yFirst | yLater
      · rw [xFirst, yFirst]
      · have := below y yLater
        rw [xFirst] at same
        omega
    · rcases List.mem_cons.mp hy with yFirst | yLater
      · have := below x xLater
        rw [yFirst] at same
        omega
      · exact ih sorted xLater yLater

theorem Ascending.lastUpTo_eq_some_iff (order : Ascending tickOf items) {x : α} :
    lastUpTo tickOf tick items = some x ↔
      x ∈ items ∧ tickOf x ≤ tick ∧ ∀ y ∈ items, tickOf y ≤ tick → tickOf y ≤ tickOf x := by
  constructor
  · intro found
    obtain ⟨member, before⟩ := mem_of_lastUpTo found
    exact ⟨member, before, fun y hy => order.le_lastUpTo found hy⟩
  · rintro ⟨member, before, greatest⟩
    cases found : lastUpTo tickOf tick items with
    | none =>
      have := lastUpTo_eq_none_iff.mp found x member
      omega
    | some y =>
      obtain ⟨hy, yBefore⟩ := mem_of_lastUpTo found
      have upper := order.le_lastUpTo found member before
      have lower := greatest y hy yBefore
      rw [order.eq_of_tick hy member (by omega)]

theorem Ascending.nodup (order : Ascending tickOf items) : items.Nodup :=
  order.imp fun less same => by simp [same] at less

/-- Ticks are distinct if none occurs twice. -/
theorem pairwise_ne_of_alone (alone : ∀ tick, (items.filter fun x => tickOf x == tick).length ≤ 1) :
    items.Pairwise fun x y => tickOf x ≠ tickOf y := by
  induction items with
  | nil => exact List.Pairwise.nil
  | cons first rest ih =>
    refine List.pairwise_cons.mpr ⟨fun y member same => ?_, ih fun tick => ?_⟩
    · have here := alone (tickOf first)
      rw [List.filter_cons_of_pos (by simp), List.length_cons] at here
      have none : (rest.filter fun x => tickOf x == tickOf first) = [] :=
        List.eq_nil_of_length_eq_zero (by omega)
      exact List.filter_eq_nil_iff.mp none y member (by simp [same])
    · exact Nat.le_trans ((List.sublist_cons_self first rest).filter _).length_le (alone tick)

/-- Ascending lists with the same members are the same. -/
theorem Ascending.eq_of_mem_iff {others : List α} (order : Ascending tickOf items)
    (order' : Ascending tickOf others) (same : ∀ x, x ∈ items ↔ x ∈ others) : items = others := by
  have perm := (List.perm_ext_iff_of_nodup order.nodup order'.nodup).mpr same
  refine List.Perm.eq_of_pairwise (fun x y _ _ less more => ?_) order order' perm
  omega

/-- The items before one of them are those with smaller ticks. -/
theorem Ascending.filter_before {before after : List α} {x : α}
    (order : Ascending tickOf (before ++ x :: after)) :
    ((before ++ x :: after).filter fun y => tickOf y < tickOf x) = before := by
  obtain ⟨_, tail, cross⟩ := List.pairwise_append.mp order
  obtain ⟨above, _⟩ := List.pairwise_cons.mp tail
  have none : (after.filter fun y => tickOf y < tickOf x) = [] := by
    refine List.filter_eq_nil_iff.mpr fun y member => ?_
    have := above y member
    simpa using Nat.le_of_lt this
  have all : (before.filter fun y => tickOf y < tickOf x) = before := by
    refine List.filter_eq_self.mpr fun y member => ?_
    simpa using cross y member x (by simp)
  rw [List.filter_append, all, List.filter_cons_of_neg (by simp), none, List.append_nil]

/-- Those after it are those with greater ticks. -/
theorem Ascending.filter_after {before after : List α} {x : α}
    (order : Ascending tickOf (before ++ x :: after)) :
    ((before ++ x :: after).filter fun y => tickOf x < tickOf y) = after := by
  obtain ⟨_, tail, cross⟩ := List.pairwise_append.mp order
  obtain ⟨above, _⟩ := List.pairwise_cons.mp tail
  have none : (before.filter fun y => tickOf x < tickOf y) = [] := by
    refine List.filter_eq_nil_iff.mpr fun y member => ?_
    have := cross y member x (by simp)
    simpa using Nat.le_of_lt this
  have all : (after.filter fun y => tickOf x < tickOf y) = after :=
    List.filter_eq_self.mpr fun y member => decide_eq_true (above y member)
  rw [List.filter_append, none, List.filter_cons_of_neg (by simp), all, List.nil_append]

theorem Ascending.filter_from {before after : List α} {x : α}
    (order : Ascending tickOf (before ++ x :: after)) :
    ((before ++ x :: after).filter fun y => tickOf x ≤ tickOf y) = x :: after := by
  obtain ⟨_, tail, cross⟩ := List.pairwise_append.mp order
  obtain ⟨above, _⟩ := List.pairwise_cons.mp tail
  have none : (before.filter fun y => tickOf x ≤ tickOf y) = [] := by
    refine List.filter_eq_nil_iff.mpr fun y member => ?_
    simpa using cross y member x (by simp)
  have all : (after.filter fun y => tickOf x ≤ tickOf y) = after :=
    List.filter_eq_self.mpr fun y member => decide_eq_true (Nat.le_of_lt (above y member))
  rw [List.filter_append, none, List.filter_cons_of_pos (by simp), all, List.nil_append]

end

/-! ### Dropping what repeats -/

section
variable {α κ : Type} [DecidableEq κ] {tickOf : α → Nat} {key : α → κ} {items : List α}

/-- The items whose key differs from that of the item before them. -/
def changed (key : α → κ) : Option κ → List α → List α
  | _, [] => []
  | previous, x :: rest =>
    (if previous = some (key x) then [] else [x]) ++ changed key (some (key x)) rest

theorem changed_sublist (previous : Option κ) : (changed key previous items).Sublist items := by
  induction items generalizing previous with
  | nil => exact List.Sublist.slnil
  | cons x rest ih =>
    unfold changed
    split
    · exact (ih _).cons x
    · exact (ih _).cons_cons x

-- The induction is on the items that are still to come; those before them fix the previous key.
private theorem changed_eq_filter_from (before rest : List α)
    (order : Ascending tickOf (before ++ rest)) :
    changed key (before.getLast?.map key) rest = rest.filter fun x =>
      ((before ++ rest).filter fun y => tickOf y < tickOf x).getLast?.map key ≠ some (key x) := by
  induction rest generalizing before with
  | nil => rfl
  | cons x rest ih =>
    have later := ih (before ++ [x]) (by simpa using order)
    simp only [List.getLast?_append, List.getLast?_singleton, Option.some_or, Option.map_some,
      List.append_assoc, List.singleton_append] at later
    rw [changed, later, List.filter_cons, order.filter_before]
    by_cases same : before.getLast?.map key = some (key x) <;> simp [same]

/-- An item is kept if the last item with a smaller tick, if any, has another key. -/
theorem changed_eq_filter (order : Ascending tickOf items) :
    changed key none items = items.filter fun x =>
      (items.filter fun y => tickOf y < tickOf x).getLast?.map key ≠ some (key x) :=
  changed_eq_filter_from [] items order

/-- Dropping repetitions does not change what is held, if the previous key counts before the first
item. -/
theorem lastUpTo_changed (order : Ascending tickOf items) (tick : Nat) (previous : Option κ) :
    ((lastUpTo tickOf tick (changed key previous items)).map key).or previous =
      ((lastUpTo tickOf tick items).map key).or previous := by
  induction items generalizing previous with
  | nil => rfl
  | cons x rest ih =>
    obtain ⟨above, sorted⟩ := List.pairwise_cons.mp order
    by_cases before : tickOf x ≤ tick
    · have held := ih sorted (some (key x))
      rw [changed, lastUpTo_append, lastUpTo_cons, if_pos before]
      by_cases same : previous = some (key x)
      · subst same
        rw [if_pos rfl]
        simpa [lastUpTo, Option.map_or, Option.or_assoc] using held
      · rw [if_neg same]
        simpa [lastUpTo, before, Option.map_or, Option.or_assoc] using congrArg (·.or previous) held
    · have beyond : ∀ y ∈ x :: rest, tick < tickOf y := by
        intro y member
        rcases List.mem_cons.mp member with rfl | later
        · omega
        · have := above y later
          omega
      rw [lastUpTo_beyond beyond,
        lastUpTo_beyond fun y member => beyond y ((changed_sublist previous).subset member)]

/-- What depends on the key only is held the same with and without repetitions. -/
theorem lastUpTo_changed_map (order : Ascending tickOf items) (tick : Nat) {β : Type} (f : α → β)
    (respects : ∀ x y, key x = key y → f x = f y) :
    (lastUpTo tickOf tick (changed key none items)).map f =
      (lastUpTo tickOf tick items).map f := by
  have keys := @lastUpTo_changed α κ _ tickOf key items order tick none
  rw [Option.or_none, Option.or_none] at keys
  cases kept : lastUpTo tickOf tick (changed key none items) with
  | none =>
    rw [kept] at keys
    rw [Option.map_eq_none_iff.mp keys.symm]
  | some x =>
    rw [kept, Option.map_some] at keys
    obtain ⟨y, held, same⟩ := Option.map_eq_some_iff.mp keys.symm
    rw [held, Option.map_some, Option.map_some, respects x y same.symm]

end

/-! ### Sorting ticks -/

private theorem eraseReps_loop (current : Nat) (rest seen : List Nat)
    (sorted : (current :: rest).Pairwise (· ≤ ·)) (descending : seen.Pairwise (· > ·))
    (below : ∀ x ∈ seen, x < current) :
    (List.eraseRepsBy.loop (· == ·) current rest seen).Pairwise (· < ·) ∧
      ∀ x, x ∈ List.eraseRepsBy.loop (· == ·) current rest seen ↔ x ∈ seen ∨ x ∈ current :: rest := by
  induction rest generalizing current seen with
  | nil =>
    constructor
    · rw [List.eraseRepsBy.loop, List.pairwise_reverse]
      exact List.pairwise_cons.mpr ⟨below, descending⟩
    · intro x
      simp [List.eraseRepsBy.loop, or_comm]
  | cons next rest ih =>
    obtain ⟨least, tail⟩ := List.pairwise_cons.mp sorted
    cases same : current == next with
    | true =>
      obtain rfl : current = next := by simpa using same
      obtain ⟨strict, members⟩ := ih current seen tail descending below
      rw [List.eraseRepsBy.loop, same]
      refine ⟨strict, fun x => ?_⟩
      rw [members x]
      simp
    | false =>
      have smaller : current < next := by
        have := least next (by simp)
        have : current ≠ next := by simpa using same
        omega
      have grown : (current :: seen).Pairwise (· > ·) := List.pairwise_cons.mpr ⟨below, descending⟩
      have bound : ∀ x ∈ current :: seen, x < next := by
        intro x member
        rcases List.mem_cons.mp member with rfl | member
        · exact smaller
        · exact Nat.lt_trans (below x member) smaller
      obtain ⟨strict, members⟩ := ih next (current :: seen) tail grown bound
      rw [List.eraseRepsBy.loop, same]
      refine ⟨strict, fun x => ?_⟩
      rw [members x]
      simp only [List.mem_cons]
      grind

private theorem eraseReps_sorted {ticks : List Nat} (sorted : ticks.Pairwise (· ≤ ·)) :
    ticks.eraseReps.Pairwise (· < ·) ∧ ∀ x, x ∈ ticks.eraseReps ↔ x ∈ ticks := by
  cases ticks with
  | nil => simp [List.eraseReps, List.eraseRepsBy]
  | cons first rest =>
    have step := eraseReps_loop first rest [] sorted List.Pairwise.nil (by simp)
    simpa [List.eraseReps, List.eraseRepsBy] using step

theorem sortedTicks_spec (ticks : List Nat) :
    Ascending id (sortedTicks ticks) ∧ ∀ tick, tick ∈ sortedTicks ticks ↔ tick ∈ ticks := by
  have sorted : (ticks.mergeSort (· ≤ ·)).Pairwise (· ≤ ·) := by
    have ordered := @List.pairwise_mergeSort Nat (fun a b => decide (a ≤ b))
      (fun a b c => by simpa using Nat.le_trans) (fun a b => by simpa using Nat.le_total a b) ticks
    simpa using ordered
  obtain ⟨strict, members⟩ := eraseReps_sorted sorted
  refine ⟨strict, fun tick => ?_⟩
  rw [sortedTicks, members, List.mem_mergeSort]

/-- Takes a tick into an ascending list, once. -/
def insertTick (tick : Nat) : List Nat → List Nat
  | [] => [tick]
  | first :: rest =>
    if tick < first then tick :: first :: rest
    else if tick = first then first :: rest
    else first :: insertTick tick rest

theorem mem_insertTick {tick x : Nat} {ticks : List Nat} :
    x ∈ insertTick tick ticks ↔ x = tick ∨ x ∈ ticks := by
  induction ticks with
  | nil => simp [insertTick]
  | cons first rest ih =>
    unfold insertTick
    split
    · simp
    · split
      · rename_i same
        subst same
        simp
      · simp only [List.mem_cons, ih]
        exact or_left_comm

theorem insertTick_ascending {tick : Nat} {ticks : List Nat} (order : Ascending id ticks) :
    Ascending id (insertTick tick ticks) := by
  induction ticks with
  | nil => exact List.pairwise_singleton _ _
  | cons first rest ih =>
    obtain ⟨above, sorted⟩ := List.pairwise_cons.mp order
    simp only [id] at above
    unfold insertTick
    split
    · refine List.pairwise_cons.mpr ⟨fun x member => ?_, order⟩
      simp only [id]
      rcases List.mem_cons.mp member with rfl | later
      · assumption
      · have := above x later
        omega
    · split
      · exact order
      · refine List.pairwise_cons.mpr ⟨fun x member => ?_, ih sorted⟩
        simp only [id]
        rcases mem_insertTick.mp member with rfl | later
        · omega
        · exact above x later

/-- Sorting by insertion, which evaluates by recursion on the list. -/
theorem sortedTicks_eq (ticks : List Nat) : sortedTicks ticks = ticks.foldr insertTick [] := by
  obtain ⟨order, members⟩ := sortedTicks_spec ticks
  have inserted : Ascending id (ticks.foldr insertTick []) ∧
      ∀ x, x ∈ ticks.foldr insertTick [] ↔ x ∈ ticks := by
    induction ticks with
    | nil => exact ⟨List.Pairwise.nil, by simp⟩
    | cons first rest ih =>
      obtain ⟨sorted, same⟩ := ih (sortedTicks_spec rest).1 (sortedTicks_spec rest).2
      refine ⟨insertTick_ascending sorted, fun x => ?_⟩
      rw [List.foldr_cons, mem_insertTick, same, List.mem_cons]
  exact order.eq_of_mem_iff inserted.1 fun x => by rw [members, inserted.2]

end Sequencer
