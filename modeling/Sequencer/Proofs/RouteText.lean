import Sequencer.Routing.Table
import Sequencer.Text.Pattern

/-!
Routes as text: what is accepted, and that nothing is lost between writing and reading.

The text of a route is given by a pattern. Its parts cannot be told apart in two ways, since no character of a name is
white space or a colon, so a reader that takes as much as it can of each part finds the only match there is. A written
route has no white space and leaves the usual level out, and what is read of it is the same route.
-/
namespace Sequencer

/-! ### Runs of one class -/

/-- A run ends where the class ends. -/
theorem takeWhile_run {class_ : Char → Bool} {run rest : List Char} (all : ∀ c ∈ run, class_ c)
    (ends : ∀ c ∈ rest.head?, class_ c = false) :
    (run ++ rest).takeWhile class_ = run ∧ (run ++ rest).dropWhile class_ = rest := by
  rw [List.takeWhile_append_of_pos all, List.dropWhile_append_of_pos all]
  cases rest with
  | nil => exact ⟨List.append_nil run, rfl⟩
  | cons c rest =>
    have other : class_ c = false := ends c rfl
    simp [other]

theorem forall_takeWhile (class_ : Char → Bool) (chars : List Char) : ∀ c ∈ chars.takeWhile class_, class_ c :=
  List.all_eq_true.mp List.all_takeWhile

namespace Route

/-! ### Names -/

def inRange (low high c : Char) : Bool := low ≤ c && c ≤ high

def isLetter (c : Char) : Bool := inRange 'A' 'Z' c || inRange 'a' 'z' c || c == '_'

def isLetterOrDigit (c : Char) : Bool := isLetter c || inRange '0' '9' c

/-- A name that begins with a letter or an underscore. -/
def IsIdentifier (s : List Char) : Prop := ∃ c rest, s = c :: rest ∧ isLetter c ∧ ∀ c ∈ rest, isLetterOrDigit c

def IsLevelName (s : List Char) : Prop := s ≠ [] ∧ ∀ c ∈ s, isLetter c

def IsBlank (s : List Char) : Prop := ∀ c ∈ s, Text.isBlank c

theorem isLevelChar_eq (c : Char) : isLevelChar c = isLetter c := by
  have upper : c.isUpper = inRange 'A' 'Z' c := Bool.decide_and _ _
  change (c.isUpper || c.isLower || c == '_') = isLetter c
  rw [upper]
  rfl

theorem isSourceChar_eq (c : Char) : isSourceChar c = isLetterOrDigit c := by
  rw [isSourceChar, isLevelChar_eq]
  rfl

theorem isLetter_iff {c : Char} :
    isLetter c ↔ 65 ≤ c.toNat ∧ c.toNat ≤ 90 ∨ 97 ≤ c.toNat ∧ c.toNat ≤ 122 ∨ c.toNat = 95 := by
  simp only [isLetter, inRange, Char.le_def, Bool.or_eq_true, Bool.and_eq_true, decide_eq_true_eq, beq_iff_eq,
    UInt32.le_iff_toNat_le, ← Char.toNat_inj, or_assoc]
  exact Iff.rfl

theorem isDigit_iff {c : Char} : c.isDigit ↔ 48 ≤ c.toNat ∧ c.toNat ≤ 57 := by
  simp only [Char.isDigit, Bool.and_eq_true, decide_eq_true_eq, ge_iff_le, UInt32.le_iff_toNat_le]
  exact Iff.rfl

theorem isLetterOrDigit_iff {c : Char} : isLetterOrDigit c ↔ isLetter c ∨ c.isDigit := by
  rw [← isSourceChar_eq, isSourceChar, isLevelChar_eq, Bool.or_eq_true]

theorem not_isLetterOrDigit_of_isBlank {c : Char} (blank : Text.isBlank c) : isLetterOrDigit c = false := by
  refine Bool.eq_false_iff.mpr fun name => ?_
  rw [isLetterOrDigit_iff, isLetter_iff, isDigit_iff] at name
  simp only [Text.isBlank, Text.inRanges, Text.blanks, List.any_cons, List.any_nil, Bool.or_false, Bool.or_eq_true,
    Bool.and_eq_true, decide_eq_true_eq] at blank
  omega

theorem not_isBlank_of_isLetterOrDigit {c : Char} (name : isLetterOrDigit c) : Text.isBlank c = false := by
  refine Bool.eq_false_iff.mpr fun blank => ?_
  rw [not_isLetterOrDigit_of_isBlank blank] at name
  cases name

theorem isLetterOrDigit_of_isLetter {c : Char} (letter : isLetter c) : isLetterOrDigit c := by
  rw [isLetterOrDigit, letter, Bool.true_or]

/-- White space, or nothing, ends a name. -/
theorem IsBlank.ends {rest : List Char} (blank : IsBlank rest) : ∀ c ∈ rest.head?, isLetterOrDigit c = false :=
  fun c first => not_isLetterOrDigit_of_isBlank (blank c (List.mem_of_mem_head? first))

/-- A name ends white space. -/
theorem IsIdentifier.ends {name : List Char} (is : IsIdentifier name) (rest : List Char) :
    ∀ c ∈ (name ++ rest).head?, Text.isBlank c = false := by
  obtain ⟨first, later, rfl, letter, _⟩ := is
  rintro _ ⟨⟩
  exact not_isBlank_of_isLetterOrDigit (isLetterOrDigit_of_isLetter letter)

theorem IsIdentifier.all {name : List Char} (is : IsIdentifier name) : ∀ c ∈ name, isLetterOrDigit c := by
  obtain ⟨first, later, rfl, letter, all⟩ := is
  exact List.forall_mem_cons.mpr ⟨isLetterOrDigit_of_isLetter letter, all⟩

theorem IsLevelName.isIdentifier {name : List Char} (is : IsLevelName name) : IsIdentifier name := by
  obtain ⟨nonempty, all⟩ := is
  obtain ⟨first, later, rfl⟩ := List.exists_cons_of_ne_nil nonempty
  rw [List.forall_mem_cons] at all
  exact ⟨first, later, rfl, all.1, fun c listed => isLetterOrDigit_of_isLetter (all.2 c listed)⟩

/-! ### The grammar -/

/-- A colon and a level, with white space around the level. -/
inductive WrittenLevel : List Char → List Char → Prop
  | mk {between level rest : List Char} (lead : IsBlank between) (name : IsLevelName level) (trail : IsBlank rest) :
    WrittenLevel (':' :: (between ++ level ++ rest)) level

/-- A text with its source and, if there is one, its level. White space may stand around the source. -/
inductive Written : List Char → List Char → Option (List Char) → Prop
  | usual {before source after : List Char} (lead : IsBlank before) (name : IsIdentifier source)
    (trail : IsBlank after) : Written (before ++ source ++ after) source none
  | leveled {before source after text level : List Char} (lead : IsBlank before) (name : IsIdentifier source)
    (trail : IsBlank after) (written : WrittenLevel text level) :
    Written (before ++ source ++ after ++ text) source (some level)

/-- The route of a source and a level; the usual level may be left out. -/
def named (source : List Char) (level : Option (List Char)) : Route :=
  ⟨String.ofList source, (level.map String.ofList).getD usualLevel⟩

theorem parseLevel?_iff {text : List Char} {level : String} : parseLevel? text = some level ↔
    text = [] ∧ level = usualLevel ∨ ∃ name, WrittenLevel text name ∧ level = String.ofList name := by
  constructor
  · intro read
    unfold parseLevel? at read
    split at read
    · cases read
      exact .inl ⟨rfl, rfl⟩
    · rename_i rest
      dsimp only at read
      split at read
      · cases read
      · rename_i accepted
        cases read
        simp only [Bool.or_eq_true, List.isEmpty_iff, Bool.not_eq_true', not_or, Bool.not_eq_false,
          List.all_eq_true] at accepted
        have letters : ∀ c ∈ (rest.dropWhile Text.isBlank).takeWhile isLevelChar, isLetter c := by
          intro c listed
          rw [← isLevelChar_eq]
          exact forall_takeWhile _ _ c listed
        have written := WrittenLevel.mk (forall_takeWhile Text.isBlank rest) ⟨accepted.1, letters⟩ accepted.2
        rw [List.append_assoc, List.takeWhile_append_dropWhile, List.takeWhile_append_dropWhile] at written
        exact .inr ⟨_, written, rfl⟩
    · cases read
  · rintro (⟨rfl, rfl⟩ | ⟨name, ⟨lead, is, trail⟩, rfl⟩)
    · rfl
    · rename_i between after
      have first := takeWhile_run lead (is.isIdentifier.ends after)
      have letters : ∀ c ∈ name, isLevelChar c := fun c listed => (isLevelChar_eq c).trans (is.2 c listed)
      have ends : ∀ c ∈ after.head?, isLevelChar c = false := by
        intro c listed
        have other := trail.ends c listed
        rw [isLetterOrDigit, Bool.or_eq_false_iff] at other
        rw [isLevelChar_eq, other.1]
      have second := takeWhile_run letters ends
      have blank : after.all Text.isBlank := List.all_eq_true.mpr trail
      rw [parseLevel?, List.append_assoc, first.2, second.1, second.2]
      simp [is.1, blank]

/-- Nothing, or a colon. Both end a name and white space. -/
theorem parseChars?_parts {before source after rest : List Char} (lead : IsBlank before) (name : IsIdentifier source)
    (trail : IsBlank after) (ends : ∀ c ∈ rest.head?, c = ':') :
    parseChars? (before ++ source ++ after ++ rest) =
      (parseLevel? rest).map fun level => ⟨String.ofList source, level⟩ := by
  have skipped := takeWhile_run lead (name.ends (after ++ rest))
  have chars : ∀ c ∈ source, isSourceChar c := fun c listed => (isSourceChar_eq c).trans (name.all c listed)
  have stops : ∀ c ∈ (after ++ rest).head?, isSourceChar c = false := by
    intro c listed
    rw [isSourceChar_eq]
    cases after with
    | nil => rw [ends c listed]; rfl
    | cons first later => exact trail.ends c listed
  have taken := takeWhile_run chars stops
  have blank := takeWhile_run trail fun c listed => by rw [ends c listed]; rfl
  -- The reader takes digits for the source too, and refuses the name afterwards if it begins with one.
  obtain ⟨first, later, rfl, letter, _⟩ := name
  have plain : first.isDigit = false := by
    refine Bool.eq_false_iff.mpr fun digit => ?_
    rw [isLetter_iff] at letter
    rw [isDigit_iff] at digit
    omega
  rw [List.append_assoc, List.append_assoc, parseChars?, skipped.2, taken.1, taken.2, blank.2]
  simp [plain]

theorem exists_parts {text : List Char} {r : Route} (read : parseChars? text = some r) :
    ∃ before source after rest level, text = before ++ source ++ after ++ rest ∧ IsBlank before ∧
      IsIdentifier source ∧ IsBlank after ∧ parseLevel? rest = some level ∧ r = ⟨String.ofList source, level⟩ := by
  unfold parseChars? at read
  dsimp only at read
  split at read
  · cases read
  · rename_i first later isSource
    split at read
    · cases read
    · rename_i plain
      obtain ⟨level, readLevel, rfl⟩ := Option.map_eq_some_iff.mp read
      have chars := forall_takeWhile isSourceChar (text.dropWhile Text.isBlank)
      simp only [isSource, List.forall_mem_cons, isSourceChar_eq] at chars
      have letter : isLetter first := (isLetterOrDigit_iff.mp chars.1).resolve_right plain
      have trail := forall_takeWhile Text.isBlank ((text.dropWhile Text.isBlank).dropWhile isSourceChar)
      refine ⟨_, first :: later, _, _, level, ?_, forall_takeWhile Text.isBlank text,
        ⟨first, later, rfl, letter, chars.2⟩, trail, readLevel, rfl⟩
      simp only [← isSource, List.append_assoc, List.takeWhile_append_dropWhile]

theorem parseChars?_iff {text : List Char} {r : Route} :
    parseChars? text = some r ↔ ∃ source level, Written text source level ∧ r = named source level := by
  constructor
  · intro read
    obtain ⟨before, source, after, rest, level, rfl, lead, name, trail, readLevel, rfl⟩ := exists_parts read
    obtain ⟨rfl, rfl⟩ | ⟨level, written, rfl⟩ := parseLevel?_iff.mp readLevel
    · rw [List.append_nil]
      exact ⟨source, none, .usual lead name trail, rfl⟩
    · exact ⟨source, some level, .leveled lead name trail written, rfl⟩
  · rintro ⟨source, _, ⟨lead, name, trail⟩ | ⟨lead, name, trail, level⟩, rfl⟩
    · have nothing : ∀ c ∈ ([] : List Char).head?, c = ':' := fun _ none => nomatch none
      rw [← List.append_nil (_ ++ _), parseChars?_parts lead name trail nothing]
      rfl
    · rw [parseChars?_parts lead name trail fun c is => ?_, parseLevel?_iff.mpr (.inr ⟨_, level, rfl⟩)]
      · rfl
      · obtain ⟨_, _, _⟩ := level
        cases is
        rfl

theorem parse_eq_ok_iff {text : String} {r : Route} :
    Route.parse text = .ok r ↔ ∃ source level, Written text.toList source level ∧ r = named source level := by
  rw [← parseChars?_iff]
  unfold Route.parse Route.parse?
  cases Route.parseChars? text.toList with
  | none => exact iff_of_false (fun read => nomatch read) (fun read => nomatch read)
  | some read => rw [Except.ok.injEq, Option.some.injEq]

theorem parse_eq_error {text : String} (foreign : ¬ ∃ source level, Written text.toList source level) :
    Route.parse text = .error (.badRoute text) := by
  unfold Route.parse Route.parse?
  cases read : Route.parseChars? text.toList with
  | none => rfl
  | some r =>
    obtain ⟨source, level, written, _⟩ := parseChars?_iff.mp read
    exact absurd ⟨source, level, written⟩ foreign

/-! ### The pattern -/

section Pattern
open Text.Pattern
variable {text : List Char} {groups : Text.Groups}

def blankPattern : Text.Pattern := many (one Text.isBlank)

def identifierPattern : Text.Pattern := one isLetter ++ many (one isLetterOrDigit)

def levelPattern : Text.Pattern :=
  one (· == ':') ++ blankPattern ++ group 2 (atLeastOne (one isLetter)) ++ blankPattern

def sourcePattern : Text.Pattern := blankPattern ++ group 1 identifierPattern ++ blankPattern

/-- The text of a route from its start to its end. -/
def pattern : Text.Pattern := sourcePattern ++ optional levelPattern

/-- The source stands in the first group, the level in the second if that took part. -/
def ofGroups (groups : Text.Groups) : Option Route :=
  (groups.text? 1).map fun source => named source (groups.text? 2)

theorem matches_blank_iff : blankPattern.Matches text groups ↔ IsBlank text ∧ groups = [] := matches_many_one_iff

theorem matches_identifier_iff : identifierPattern.Matches text groups ↔ IsIdentifier text ∧ groups = [] := by
  simp only [identifierPattern, matches_both_iff, matches_one_iff, matches_many_one_iff]
  constructor
  · rintro ⟨_, rest, _, _, rfl, rfl, ⟨c, letter, rfl, rfl⟩, all, rfl⟩
    exact ⟨⟨c, rest, rfl, letter, all⟩, rfl⟩
  · rintro ⟨⟨c, rest, rfl, letter, all⟩, rfl⟩
    exact ⟨[c], rest, [], [], rfl, rfl, ⟨c, letter, rfl, rfl⟩, all, rfl⟩

theorem matches_level_iff :
    levelPattern.Matches text groups ↔ ∃ level, WrittenLevel text level ∧ groups = [(2, level)] := by
  simp only [levelPattern, matches_both_iff, matches_one_iff, matches_blank_iff, matches_group_iff,
    matches_atLeastOne_iff]
  constructor
  · rintro ⟨_, rest, _, _, rfl, rfl, ⟨_, level, _, _, rfl, rfl, ⟨_, between, _, _, rfl, rfl, ⟨c, colon, rfl, rfl⟩,
      lead, rfl⟩, _, ⟨nonempty, all, rfl⟩, rfl⟩, trail, rfl⟩
    obtain rfl := eq_of_beq colon
    exact ⟨level, .mk lead ⟨nonempty, all⟩ trail, rfl⟩
  · rintro ⟨level, ⟨lead, name, trail⟩, rfl⟩
    exact ⟨_, _, [(2, level)], [], rfl, rfl, ⟨_, level, [], _, rfl, rfl, ⟨[':'], _, [], [], rfl, rfl,
      ⟨_, rfl, rfl, rfl⟩, lead, rfl⟩, [], ⟨name.1, name.2, rfl⟩, rfl⟩, trail, rfl⟩

theorem matches_source_iff : sourcePattern.Matches text groups ↔ ∃ before source after,
    text = before ++ source ++ after ∧ IsBlank before ∧ IsIdentifier source ∧ IsBlank after ∧
      groups = [(1, source)] := by
  simp only [sourcePattern, matches_both_iff, matches_blank_iff, matches_group_iff, matches_identifier_iff]
  constructor
  · rintro ⟨_, after, _, _, rfl, rfl, ⟨before, source, _, _, rfl, rfl, ⟨lead, rfl⟩, _, ⟨name, rfl⟩, rfl⟩, trail, rfl⟩
    exact ⟨before, source, after, rfl, lead, name, trail, rfl⟩
  · rintro ⟨before, source, after, rfl, lead, name, trail, rfl⟩
    exact ⟨_, after, [(1, source)], [], rfl, rfl, ⟨before, source, [], _, rfl, rfl, ⟨lead, rfl⟩, [], ⟨name, rfl⟩, rfl⟩,
      trail, rfl⟩

theorem matches_pattern_iff : pattern.Matches text groups ↔
    ∃ source level, Written text source level ∧ groups = (1, source) :: (level.map (2, ·)).toList := by
  simp only [pattern, matches_both_iff, matches_source_iff, matches_optional_iff, matches_level_iff]
  constructor
  · rintro ⟨_, _, _, _, rfl, rfl, ⟨before, source, after, rfl, lead, name, trail, rfl⟩,
      ⟨rfl, rfl⟩ | ⟨level, written, rfl⟩⟩
    · rw [List.append_nil]
      exact ⟨source, none, .usual lead name trail, rfl⟩
    · exact ⟨source, some level, .leveled lead name trail written, rfl⟩
  · rintro ⟨source, _, ⟨lead, name, trail⟩ | ⟨lead, name, trail, level⟩, rfl⟩
    · exact ⟨_, [], [(1, source)], [], (List.append_nil _).symm, rfl, ⟨_, _, _, rfl, lead, name, trail, rfl⟩,
        .inl ⟨rfl, rfl⟩⟩
    · exact ⟨_, _, [(1, source)], _, rfl, rfl, ⟨_, _, _, rfl, lead, name, trail, rfl⟩, .inr ⟨_, level, rfl⟩⟩

theorem exists_match_iff {r : Route} : (∃ groups, pattern.Matches text groups ∧ ofGroups groups = some r) ↔
    ∃ source level, Written text source level ∧ r = named source level := by
  simp only [matches_pattern_iff]
  constructor
  · rintro ⟨_, ⟨source, level, written, rfl⟩, read⟩
    refine ⟨source, level, written, ?_⟩
    cases level <;> exact (Option.some.inj read).symm
  · rintro ⟨source, level, written, rfl⟩
    refine ⟨_, ⟨source, level, written, rfl⟩, ?_⟩
    cases level <;> rfl

end Pattern

/-! ### Writing and reading -/

/-- The two names of the route can be written. -/
structure Nameable (r : Route) : Prop where
  source : IsIdentifier r.source.toList
  level : IsLevelName r.level.toList

theorem isLevelName_usual : IsLevelName usualLevel.toList := ⟨by decide, List.all_eq_true.mp (by decide)⟩

theorem nameable_named {source : List Char} {level : Option (List Char)} (name : IsIdentifier source)
    (levelName : ∀ l ∈ level, IsLevelName l) : Nameable (named source level) := by
  refine ⟨?_, ?_⟩
  · rw [named, String.toList_ofList]
    exact name
  · cases level with
    | none => exact isLevelName_usual
    | some level =>
      change IsLevelName (String.ofList level).toList
      rw [String.toList_ofList]
      exact levelName level rfl

theorem nameable_of_written {text source : List Char} {level : Option (List Char)}
    (written : Written text source level) : Nameable (named source level) := by
  cases written with
  | usual _ name _ => exact nameable_named name fun _ none => nomatch none
  | leveled _ name _ written =>
    obtain ⟨_, levelName, _⟩ := written
    refine nameable_named name ?_
    rintro _ ⟨⟩
    exact levelName

/-- A written route has no white space, and no level if that is the usual one. -/
theorem Nameable.written {r : Route} (able : Nameable r) : ∃ level, Written r.text.toList r.source.toList level ∧
    r = named r.source.toList level := by
  have nothing : IsBlank [] := List.forall_mem_nil _
  by_cases usual : r.level = usualLevel
  · refine ⟨none, ?_, ?_⟩
    · have written := Written.usual nothing able.source nothing
      rw [List.nil_append, List.append_nil] at written
      rw [text, if_pos usual]
      exact written
    · rw [named, String.ofList_toList, Option.map_none, Option.getD_none, ← usual]
  · refine ⟨some r.level.toList, ?_, ?_⟩
    · have written := Written.leveled nothing able.source nothing (.mk nothing able.level nothing)
      simp only [List.nil_append, List.append_nil] at written
      rw [text, if_neg usual, String.toList_append, String.toList_append, List.append_assoc]
      exact written
    · rw [named, String.ofList_toList, Option.map_some, Option.getD_some, String.ofList_toList]

theorem Nameable.parse_text {r : Route} (able : Nameable r) : Route.parse r.text = .ok r := by
  obtain ⟨level, written, is⟩ := able.written
  exact parse_eq_ok_iff.mpr ⟨_, level, written, is⟩

theorem nameable_of_parse {text : String} {r : Route} (read : Route.parse text = .ok r) : Nameable r := by
  obtain ⟨source, level, written, rfl⟩ := parse_eq_ok_iff.mp read
  exact nameable_of_written written

/--
Routes as text, for every text and every route. A text is read exactly where the pattern matches it, and as the groups
say; these texts are the ones of the grammar, and any other is reported as it stands. What is read of an accepted text
is read again of its written form, which then stays the same. A route of two names is read back from its text, whether
its level is the usual one or not.
-/
theorem texts_round_trip :
    (∀ text r, Route.parse text = .ok r ↔
      ∃ groups, pattern.Matches text.toList groups ∧ ofGroups groups = some r) ∧
    (∀ text r, Route.parse text = .ok r ↔
      ∃ source level, Written text.toList source level ∧ r = named source level) ∧
    (∀ text, (¬ ∃ source level, Written text.toList source level) →
      Route.parse text = .error (.badRoute text)) ∧
    (∀ text r, Route.parse text = .ok r →
      Route.parse r.text = .ok r ∧ (Route.parse r.text).map Route.text = .ok r.text) ∧
    ∀ r : Route, IsIdentifier r.source.toList → IsLevelName r.level.toList → Route.parse r.text = .ok r := by
  refine ⟨fun text r => ?_, fun text r => parse_eq_ok_iff, fun text => parse_eq_error, fun text r read => ?_,
    fun r source level => Nameable.parse_text ⟨source, level⟩⟩
  · rw [exists_match_iff, parse_eq_ok_iff]
  · have back := (nameable_of_parse read).parse_text
    rw [back]
    exact ⟨rfl, rfl⟩

/-- White space of more than one kind, the usual level written out, a route that was never read, and a text without
its level. -/
theorem sampleTexts_read :
    Route.parse "\u2003in2\t: falling " = .ok ⟨"in2", "falling"⟩ ∧
      Route.parse "in2:falling" = .ok ⟨"in2", "falling"⟩ ∧
      Route.parse "_run : level" = .ok ⟨"_run", "level"⟩ ∧ Route.parse "_run" = .ok ⟨"_run", "level"⟩ ∧
      IsIdentifier "b0".toList ∧ IsLevelName "_hi".toList ∧ Route.parse "b0:_hi" = .ok ⟨"b0", "_hi"⟩ ∧
      (¬ ∃ source level, Written "in1:".toList source level) ∧
      Route.parse "in1:" = .error (.badRoute "in1:") := by
  have spaced : Route.parse "\u2003in2\t: falling " = .ok ⟨"in2", "falling"⟩ := rfl
  have usual : Route.parse "_run : level" = .ok ⟨"_run", "level"⟩ := rfl
  have source : IsIdentifier "b0".toList := ⟨ 'b', ['0'], rfl, by decide, List.all_eq_true.mp (by decide)⟩
  have level : IsLevelName "_hi".toList := ⟨by decide, List.all_eq_true.mp (by decide)⟩
  have foreign : ¬ ∃ source level, Written "in1:".toList source level := by
    rintro ⟨source, level, written⟩
    have read := (texts_round_trip.2.1 "in1:" (named source level)).mpr ⟨source, level, written, rfl⟩
    exact nomatch (show Except.error (RoutingError.badRoute "in1:") = _ from read)
  exact ⟨spaced, (texts_round_trip.2.2.2.1 _ _ spaced).1, usual, (texts_round_trip.2.2.2.1 _ _ usual).1, source,
    level, texts_round_trip.2.2.2.2 ⟨"b0", "_hi"⟩ source level, foreign, texts_round_trip.2.2.1 _ foreign⟩

end Route
end Sequencer
