/-!
Patterns of text, with parts whose text is kept.

`Pattern.Matches` says which whole texts a pattern matches, and what its numbered parts then hold. How a match is looked
for is left open: an optional part may be there or not, and a repeated one as often as the text allows.
-/
namespace Sequencer.Text

inductive Pattern where
  /-- One character of a class. -/
  | one (admits : Char → Bool)
  | both (first second : Pattern)
  | optional (p : Pattern)
  /-- Any number of times, or not at all. -/
  | many (p : Pattern)
  /-- Its text is kept under the number. -/
  | group (number : Nat) (p : Pattern)

/-- The texts that were kept, in the order in which their parts end. -/
abbrev Groups := List (Nat × List Char)

/-- What a part held when it last took part in the match. -/
def Groups.text? (g : Groups) (number : Nat) : Option (List Char) := g.reverse.lookup number

namespace Pattern

instance : Append Pattern := ⟨both⟩

/-- At least once. -/
def atLeastOne (p : Pattern) : Pattern := p ++ many p

inductive Matches : Pattern → List Char → Groups → Prop
  | one {admits : Char → Bool} {c : Char} (admitted : admits c) : Matches (.one admits) [c] []
  | both {p q : Pattern} {s t : List Char} {g h : Groups} (first : Matches p s g) (second : Matches q t h) :
    Matches (p ++ q) (s ++ t) (g ++ h)
  | absent {p : Pattern} : Matches (.optional p) [] []
  | present {p : Pattern} {s : List Char} {g : Groups} (match_ : Matches p s g) : Matches (.optional p) s g
  | stop {p : Pattern} : Matches (.many p) [] []
  | more {p : Pattern} {s t : List Char} {g h : Groups} (first : Matches p s g) (others : Matches (.many p) t h) :
    Matches (.many p) (s ++ t) (g ++ h)
  | group {n : Nat} {p : Pattern} {s : List Char} {g : Groups} (match_ : Matches p s g) :
    Matches (.group n p) s (g ++ [(n, s)])

variable {p q : Pattern} {s : List Char} {g : Groups} {admits : Char → Bool} {n : Nat}

theorem matches_one_iff : (Pattern.one admits).Matches s g ↔ ∃ c, admits c ∧ s = [c] ∧ g = [] := by
  constructor
  · rintro ⟨admitted⟩
    exact ⟨_, admitted, rfl, rfl⟩
  · rintro ⟨c, admitted, rfl, rfl⟩
    exact .one admitted

theorem matches_both_iff : (p ++ q).Matches s g ↔
    ∃ s₁ s₂ g₁ g₂, s = s₁ ++ s₂ ∧ g = g₁ ++ g₂ ∧ p.Matches s₁ g₁ ∧ q.Matches s₂ g₂ := by
  constructor
  · intro match_
    cases match_ with
    | both first second => exact ⟨_, _, _, _, rfl, rfl, first, second⟩
  · rintro ⟨s₁, s₂, g₁, g₂, rfl, rfl, first, second⟩
    exact .both first second

theorem matches_optional_iff : (Pattern.optional p).Matches s g ↔ s = [] ∧ g = [] ∨ p.Matches s g := by
  constructor
  · intro match_
    cases match_ with
    | absent => exact .inl ⟨rfl, rfl⟩
    | present match_ => exact .inr match_
  · rintro (⟨rfl, rfl⟩ | match_)
    · exact .absent
    · exact .present match_

theorem matches_group_iff : (Pattern.group n p).Matches s g ↔ ∃ h, p.Matches s h ∧ g = h ++ [(n, s)] := by
  constructor
  · intro match_
    cases match_ with
    | group match_ => exact ⟨_, match_, rfl⟩
  · rintro ⟨h, match_, rfl⟩
    exact .group match_

/-- A repeated class takes any text of its characters. -/
theorem matches_many_one_iff : (Pattern.many (.one admits)).Matches s g ↔ (∀ c ∈ s, admits c) ∧ g = [] := by
  constructor
  · intro match_
    generalize is : Pattern.many (.one admits) = p at match_
    induction match_ with
    | stop => exact ⟨List.forall_mem_nil _, rfl⟩
    | more first others _ ih =>
      cases is
      obtain ⟨c, admitted, rfl, rfl⟩ := matches_one_iff.mp first
      obtain ⟨all, rfl⟩ := ih rfl
      exact ⟨List.forall_mem_cons.mpr ⟨admitted, all⟩, rfl⟩
    | _ => cases is
  · rintro ⟨all, rfl⟩
    induction s with
    | nil => exact .stop
    | cons c rest ih =>
      rw [List.forall_mem_cons] at all
      exact .more (.one all.1) (ih all.2)

theorem matches_atLeastOne_iff :
    (Pattern.atLeastOne (.one admits)).Matches s g ↔ s ≠ [] ∧ (∀ c ∈ s, admits c) ∧ g = [] := by
  rw [atLeastOne, matches_both_iff]
  constructor
  · rintro ⟨s₁, s₂, g₁, g₂, rfl, rfl, first, others⟩
    obtain ⟨c, admitted, rfl, rfl⟩ := matches_one_iff.mp first
    obtain ⟨all, rfl⟩ := matches_many_one_iff.mp others
    exact ⟨List.cons_ne_nil _ _, List.forall_mem_cons.mpr ⟨admitted, all⟩, rfl⟩
  · rintro ⟨nonempty, all, rfl⟩
    obtain ⟨c, rest, rfl⟩ := List.exists_cons_of_ne_nil nonempty
    rw [List.forall_mem_cons] at all
    exact ⟨[c], rest, [], [], rfl, rfl, .one all.1, matches_many_one_iff.mpr ⟨all.2, rfl⟩⟩

end Pattern

end Sequencer.Text
