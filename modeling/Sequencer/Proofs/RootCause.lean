import Sequencer.Proofs.CrewRounds
import Sequencer.Proofs.FirstSigns
import Sequencer.Proofs.Rehearsal
import Sequencer.Run.Repetition

/-!
A failed repetition reports a cause. In whatever order the workers of an experiment make their calls, and
whatever their boards do, the first of them to let others know of a failure has failed by itself.
-/
namespace Sequencer

/-- An error that only says that another worker has failed, or that the run was told to end. -/
def WorkerError.IsConsequence (e : WorkerError) : Prop :=
  (∃ board, e = .run board .aborted) ∨ ∃ peer event, e = .barrier (.peerFailed peer event)

theorem WorkerError.distance_eq_zero_iff {e : WorkerError} : e.distance = 0 ↔ ¬e.IsConsequence := by
  unfold IsConsequence
  cases e with
  | run board fault => cases fault <;> simp [distance]
  | barrier error => cases error <;> simp [distance]
  | _ => simp [distance]

theorem WorkerError.isConsequence_of_distance {e : WorkerError} (far : e.distance ≠ 0) : e.IsConsequence := by
  by_contra cause
  exact far (distance_eq_zero_iff.mpr cause)

/-- A failure of a peer comes from a message that says so. -/
theorem takeMessage_peerFailed {a : Awaited} {box : List Message} {peer event : String}
    (taken : (takeMessage a box).1 = some (.error (.peerFailed peer event))) : ∃ m ∈ box, m.ok = false := by
  induction box with
  | nil => cases taken
  | cons first rest ih =>
    unfold takeMessage at taken
    split at taken
    · obtain ⟨m, member, failed⟩ := ih taken
      exact ⟨m, List.mem_cons_of_mem _ member, failed⟩
    · split at taken
      · obtain ⟨m, member, failed⟩ := ih taken
        exact ⟨m, List.mem_cons_of_mem _ member, failed⟩
      · have judged := Option.some.inj taken
        unfold Awaited.judge at judged
        split at judged
        · cases judged
        · split at judged
          · rename_i failed
            exact ⟨first, List.mem_cons_self, by simpa using failed⟩
          · cases judged

theorem Mailboxes.Hold.not_reportsFailure {m m' : Mailboxes} {worker : String} {a : Awaited}
    {answer : Except BarrierError Message} (holds : m.Hold (·.ok = true))
    (taken : m.take worker a = (some answer, m')) : reportsFailure answer = false := by
  match answer with
  | .ok _ | .error (.timeout _ _) | .error (.counterMismatch _ _ _) | .error (.bus _) => rfl
  | .error (.peerFailed peer event) =>
    obtain ⟨message, member, failed⟩ := takeMessage_peerFailed (congrArg Prod.fst taken)
    have ok := holds.pending _ message member
    simp [failed] at ok

namespace Shared
variable {x x' : Shared} {c : RunCall} {answer : c.Answer}

/-- Nobody has let the others know of a failure. -/
structure IsCalm (x : Shared) : Prop where
  down : x.isAborted = false
  holds : x.mailboxes.Hold (·.ok = true)

/-- As long as nobody tells of a failure, nobody hears of one. -/
theorem Answers.not_isAlarm (answers : x.Answers c answer x') (calm : x.IsCalm) :
    Move.isAlarm ⟨c, answer⟩ = false := by
  cases c with
  | isAborted =>
    cases seen : (answer : Bool) with
    | false => rfl
    | true =>
      have raised := answers.flag.1 seen
      rw [calm.down] at raised
      cases raised
  | wait owner a timeout =>
    rcases answers.mail with taken | ⟨_, late⟩
    · exact calm.holds.not_reportsFailure taken
    · rw [late]
      rfl
  | poll owner a =>
    cases looked : (answer : Option (Except BarrierError Message)) with
    | none => rfl
    | some result => exact calm.holds.not_reportsFailure (looked ▸ answers.mail)
  | _ => rfl

theorem Answers.isCalm (answers : x.Answers c answer x') (calm : x.IsCalm)
    (uncomplaining : c.isComplaint = false) : x'.IsCalm := by
  refine ⟨?_, answers.mail.hold calm.holds ?_⟩
  · have flag := answers.flag
    cases c with
    | isAborted => exact flag.2.trans calm.down
    | abortAll => cases uncomplaining
    | _ => exact Eq.trans flag calm.down
  · rintro recipient message rfl
    simpa [RunCall.isComplaint] using uncomplaining

end Shared

namespace Round
variable {α : Type} {x y : Round α}

/-- Nobody knows of a failure. -/
structure IsCalm (x : Round α) : Prop where
  shared : x.shared.IsCalm
  unsigned : ∀ chair ∈ x.chairs, firstSign chair.trace = none

/-- Somebody has let the others know of a failure before hearing of one. -/
def IsBlamed (x : Round α) : Prop :=
  ∃ chair ∈ x.chairs, ∃ move, firstSign chair.trace = some move ∧ move.isComplaint

theorem Step.isBlamed (step : Step x y) (blamed : x.IsBlamed) : y.IsBlamed := by
  obtain ⟨other, member, move, first, complaint⟩ := blamed
  cases step with
  | @act before later chair c shared next answer chairs calls answers =>
    rw [chairs] at member
    by_cases same : other = chair
    · subst same
      refine ⟨other.after calls answer, by simp, move, ?_, complaint⟩
      exact firstSign_append.trans (by rw [first, Option.some_or])
    · refine ⟨other, ?_, move, first, complaint⟩
      simp only [List.mem_append, List.mem_cons, same, false_or] at member ⊢
      exact member.imp_right .inr
  | linger waits calls vain => exact ⟨other, member, move, first, complaint⟩

/-- The first to know of a failure is the one who tells of it. -/
theorem Step.isCalm_or_isBlamed (step : Step x y) (calm : x.IsCalm) : y.IsCalm ∨ y.IsBlamed := by
  cases step with
  | @act before later chair c shared next answer chairs calls answers =>
    have quiet : firstSign chair.trace = none := calm.unsigned chair (by simp [chairs])
    have own : firstSign (chair.after calls answer).trace = firstSign [⟨c, answer⟩] :=
      firstSign_append_of_none quiet
    have heard := answers.not_isAlarm calm.shared
    cases complaint : c.isComplaint with
    | true =>
      refine .inr ⟨chair.after calls answer, by simp, ⟨c, answer⟩, ?_, complaint⟩
      have sign : Move.isSign ⟨c, answer⟩ = true := by
        rw [Move.isSign, heard, Bool.false_or]
        exact complaint
      rw [own, firstSign, List.find?_singleton, sign]
      rfl
    | false =>
      have unsign : Move.isSign ⟨c, answer⟩ = false := by
        rw [Move.isSign, heard, Bool.false_or]
        exact complaint
      refine .inl ⟨answers.isCalm calm.shared complaint, fun other member => ?_⟩
      rcases List.mem_append.mp member with early | late
      · exact calm.unsigned other (by simp [chairs, early])
      · rcases List.mem_cons.mp late with rfl | late
        · rw [own, firstSign, List.find?_singleton, unsign]
          rfl
        · exact calm.unsigned other (by simp [chairs, late])
  | linger waits calls vain =>
    exact .inl ⟨⟨calm.shared.down, calm.shared.holds.take vain⟩, calm.unsigned⟩

theorem Reaches.isCalm_or_isBlamed (reaches : Reaches x y) (calm : x.IsCalm) : y.IsCalm ∨ y.IsBlamed := by
  induction reaches with
  | refl => exact .inl calm
  | tail _ step ih =>
    rcases ih with calm | blamed
    · exact step.isCalm_or_isBlamed calm
    · exact .inr (step.isBlamed blamed)

/-- The mailboxes of a crew take every message. -/
theorem Reaches.delivered (reaches : Reaches x y) (before : ∀ chair ∈ x.chairs, Delivered chair.trace) :
    ∀ chair ∈ y.chairs, Delivered chair.trace := by
  induction reaches with
  | refl => exact before
  | tail _ step ih =>
    cases step with
    | @act earlier later chair c shared next answer chairs calls answers =>
      rw [chairs] at ih
      intro other member recipient message e posted
      rcases List.mem_append.mp member with early | late
      · exact ih other (List.mem_append_left _ early) recipient message e posted
      rcases List.mem_cons.mp late with rfl | late
      · rcases List.mem_append.mp posted with old | new
        · exact ih chair (by simp) recipient message e old
        · cases List.mem_singleton.mp new
          cases answers.mail.1
      · exact ih other (by simp [late]) recipient message e posted
    | linger member calls vain => exact ih

/-- Every worker begins without a sign. -/
theorem begin_isCalm {programs : List (Program runInterface α)} {shared : Shared} (calm : shared.IsCalm) :
    (begin programs shared).IsCalm := by
  refine ⟨calm, fun chair member => ?_⟩
  obtain ⟨program, _, rfl⟩ := List.mem_map.mp member
  rfl

end Round

namespace Laboratory

/-- The error that is nearer to a cause; of two that are as near the first. -/
def nearer (found : Option WorkerError) (result : Except WorkerError Report) : Option WorkerError :=
  match found, result with
  | found, .ok _ => found
  | none, .error e => some e
  | some f, .error e => if e.distance < f.distance then some e else some f

theorem cause?_eq_foldl (results : List (Except WorkerError Report)) :
    cause? results = results.foldl nearer none := by
  unfold cause?
  congr 1
  funext found result
  cases found <;> cases result <;> rfl

section
variable {results before later : List (Except WorkerError Report)} {found : Option WorkerError}
  {e f : WorkerError}

theorem foldl_nearer_mem (nearest : results.foldl nearer found = some e) : found = some e ∨ .error e ∈ results := by
  induction results generalizing found with
  | nil => exact .inl nearest
  | cons result rest ih =>
    rcases ih nearest with first | later
    · unfold nearer at first
      split at first
      · exact .inl first
      · exact .inr (by simp [Option.some.inj first])
      · split at first
        · exact .inr (by simp [Option.some.inj first])
        · exact .inl first
    · exact .inr (List.mem_cons_of_mem _ later)

/-- Nothing is nearer to a cause than a cause. -/
theorem foldl_nearer_of_cause (own : e.distance = 0) : results.foldl nearer (some e) = some e := by
  induction results with
  | nil => rfl
  | cons result rest ih =>
    have stays : nearer (some e) result = some e := by
      cases result <;> simp [nearer, own]
    rw [List.foldl_cons, stays, ih]

theorem cause?_mem (cause : cause? results = some e) : .error e ∈ results := by
  rw [cause?_eq_foldl] at cause
  exact (foldl_nearer_mem cause).resolve_left (by simp)

/-- The first cause counts. -/
theorem cause?_of_first (own : e.distance = 0) (first : ∀ f, .error f ∈ before → f.distance ≠ 0) :
    cause? (before ++ .error e :: later) = some e := by
  rw [cause?_eq_foldl, List.foldl_append, List.foldl_cons]
  have next : nearer (before.foldl nearer none) (.error e) = some e := by
    cases nearest : before.foldl nearer none with
    | none => rfl
    | some f =>
      have far := first f ((foldl_nearer_mem nearest).resolve_left (by simp))
      simp [nearer, own, Nat.pos_of_ne_zero far]
  rw [next, foldl_nearer_of_cause own]

/-- Among results with a cause there is a first one. -/
theorem exists_first_cause (member : .error e ∈ results) (own : e.distance = 0) : ∃ before f later,
    results = before ++ .error f :: later ∧ f.distance = 0 ∧
      ∀ g, .error g ∈ before → g.distance ≠ 0 := by
  induction results with
  | nil => cases member
  | cons result rest ih =>
    by_cases cause : ∃ f, result = .error f ∧ f.distance = 0
    · obtain ⟨f, rfl, isCause⟩ := cause
      exact ⟨[], f, rest, rfl, isCause, fun _ absent => by cases absent⟩
    · have further : .error e ∈ rest :=
        (List.mem_cons.mp member).resolve_left fun same => cause ⟨e, same.symm, own⟩
      obtain ⟨before, f, later, rfl, isCause, others⟩ := ih further
      refine ⟨result :: before, f, later, rfl, isCause, fun g early near => ?_⟩
      rcases List.mem_cons.mp early with same | early
      · exact cause ⟨g, same.symm, near⟩
      · exact others g early near

end

/-- The programs of the workers in a repetition, in board order. -/
def programs (polls : Nat) (crew : List (Worker × Stream)) :
    List (Program runInterface (Except WorkerError Report × Worker)) :=
  crew.map fun member => (Worker.runInCrew polls member.2).program member.1

/-- A repetition that has come to its end, with the calls of its workers in some order. -/
def Repetition (polls : Nat) (crew : List (Worker × Stream)) (shared : Shared)
    (ends : List (Except WorkerError Report × Worker)) (shared' : Shared) : Prop :=
  ∃ chairs, chairs.map Chair.rest = ends.map .done ∧
    Round.Reaches (.begin (programs polls crew) shared) ⟨chairs, shared'⟩

section
variable {polls : Nat} {crew : List (Worker × Stream)} {shared shared' : Shared}
  {ends : List (Except WorkerError Report × Worker)}

/-- A worker that has come to its end has made its run. -/
theorem ran_of_done {chairs : List (Chair (Except WorkerError Report × Worker))}
    {chair : Chair (Except WorkerError Report × Worker)} {r : Except WorkerError Report} {w' : Worker}
    (reaches : Round.Reaches (.begin (programs polls crew) shared) ⟨chairs, shared'⟩)
    (member : chair ∈ chairs) (ended : chair.rest = .done (r, w')) :
    ∃ w s, Task.Runs (Worker.runInCrew polls s) w chair.trace r w' ∧ Delivered chair.trace := by
  have seated : chair.program ∈ (Round.begin (programs polls crew) shared).chairs.map Chair.program := by
    rw [← reaches.programs]
    exact List.mem_map_of_mem member
  obtain ⟨first, begun, same⟩ := List.mem_map.mp seated
  obtain ⟨program, listed, rfl⟩ := List.mem_map.mp begun
  obtain ⟨⟨w, s⟩, _, rfl⟩ := List.mem_map.mp listed
  have follows := chair.follows
  rw [ended, ← same] at follows
  refine ⟨w, s, follows, reaches.delivered (fun chair begun => ?_) chair member⟩
  obtain ⟨_, _, rfl⟩ := List.mem_map.mp begun
  exact fun _ _ _ absent => by cases absent

/-- A repetition has a cause of its failure, or nobody has failed and nobody has told of a failure. -/
theorem Repetition.cause_or_calm (repetition : Repetition polls crew shared ends shared')
    (calm : shared.IsCalm) : (∃ e, .error e ∈ ends.map Prod.fst ∧ e.distance = 0) ∨
      shared'.IsCalm ∧ ∀ e, .error e ∉ ends.map Prod.fst := by
  obtain ⟨chairs, ended, reaches⟩ := repetition
  rcases reaches.isCalm_or_isBlamed (Round.begin_isCalm calm) with calm' | ⟨chair, member, move, first, complaint⟩
  · refine .inr ⟨calm'.shared, fun e failed => ?_⟩
    obtain ⟨⟨r, w'⟩, among, rfl⟩ := List.mem_map.mp failed
    have last : .done (.error e, w') ∈ chairs.map Chair.rest := by
      rw [ended]
      exact List.mem_map_of_mem among
    obtain ⟨chair, member, done⟩ := List.mem_map.mp last
    obtain ⟨w, s, ran, delivered⟩ := ran_of_done reaches member done
    obtain ⟨move, signed, _⟩ := Worker.runInCrew_signs ran delivered
    rw [calm'.unsigned chair member] at signed
    cases signed
  · left
    have last : chair.rest ∈ ends.map .done := by
      rw [← ended]
      exact List.mem_map_of_mem member
    obtain ⟨⟨r, w'⟩, among, done⟩ := List.mem_map.mp last
    obtain ⟨w, s, ran, delivered⟩ := ran_of_done reaches member done.symm
    have signs := Worker.runInCrew_signs ran delivered
    cases r with
    | ok report =>
      rw [Worker.SignsOf, first] at signs
      cases signs
    | error e =>
      obtain ⟨move', signed, own⟩ := signs
      rw [first] at signed
      obtain rfl := Option.some.inj signed
      exact ⟨e, List.mem_map_of_mem (f := Prod.fst) among, own complaint⟩

end

/-- The reports of a repetition without an error. -/
def reportsOf (results : List (Except WorkerError Report)) : Reports :=
  results.filterMap fun result =>
    match result with
    | .ok report => some (report.board, report)
    | .error _ => none

/-- Repetitions with the results of each, until one fails or a run is aborted. -/
inductive Repetitions (polls : Nat) : List (Worker × Stream) → Shared → Nat →
    List (List (Except WorkerError Report)) → Except WorkerError (List Reports) → Prop where
  | enough {crew : List (Worker × Stream)} {shared : Shared} : Repetitions polls crew shared 0 [] (.ok [])
  | failed {crew : List (Worker × Stream)} {shared shared' : Shared}
      {ends : List (Except WorkerError Report × Worker)} {e : WorkerError} {count : Nat}
      (once : Repetition polls crew shared ends shared') (cause : cause? (ends.map Prod.fst) = some e) :
      Repetitions polls crew shared (count + 1) [ends.map Prod.fst] (.error e)
  | aborted {crew : List (Worker × Stream)} {shared shared' : Shared}
      {ends : List (Except WorkerError Report × Worker)} {count : Nat}
      (once : Repetition polls crew shared ends shared') (good : cause? (ends.map Prod.fst) = none)
      (told : shared'.isAborted) :
      Repetitions polls crew shared (count + 1) [ends.map Prod.fst] (.ok [reportsOf (ends.map Prod.fst)])
  | again {crew : List (Worker × Stream)} {shared shared' : Shared}
      {ends : List (Except WorkerError Report × Worker)} {count : Nat}
      {rounds : List (List (Except WorkerError Report))} {outcome : Except WorkerError (List Reports)}
      (once : Repetition polls crew shared ends shared') (good : cause? (ends.map Prod.fst) = none)
      (goesOn : shared'.isAborted = false)
      (rest : Repetitions polls (crew.zipWith (fun member out => (out.2, member.2)) ends) shared' count rounds
        outcome) :
      Repetitions polls crew shared (count + 1) (ends.map Prod.fst :: rounds)
        ((reportsOf (ends.map Prod.fst) :: ·) <$> outcome)

section
variable {polls count : Nat} {crew : List (Worker × Stream)} {shared : Shared}
  {rounds : List (List (Except WorkerError Report))} {outcome : Except WorkerError (List Reports)}
  {results : List (Except WorkerError Report)} {failure : WorkerError}

/-- The first cause decides, in a repetition that began calmly. -/
theorem Repetition.first_cause {shared' : Shared} {ends : List (Except WorkerError Report × Worker)}
    (once : Repetition polls crew shared ends shared') (calm : shared.IsCalm)
    (failed : .error failure ∈ ends.map Prod.fst) : ∃ before e later,
      ends.map Prod.fst = before ++ .error e :: later ∧ e.distance = 0 ∧
        (∀ f, .error f ∈ before → f.distance ≠ 0) ∧ cause? (ends.map Prod.fst) = some e := by
  rcases once.cause_or_calm calm with ⟨cause, member, own⟩ | ⟨_, good⟩
  · obtain ⟨before, e, later, split, isCause, first⟩ := exists_first_cause member own
    exact ⟨before, e, later, split, isCause, first, by rw [split, cause?_of_first isCause first]⟩
  · exact absurd failed (good failure)

/-- A repetition without a cause of a failure ends calmly. -/
theorem Repetition.calm_of_good {shared' : Shared} {ends : List (Except WorkerError Report × Worker)}
    (once : Repetition polls crew shared ends shared') (calm : shared.IsCalm)
    (good : cause? (ends.map Prod.fst) = none) : shared'.IsCalm ∧ ∀ e, .error e ∉ ends.map Prod.fst := by
  refine (once.cause_or_calm calm).resolve_left fun ⟨cause, member, _⟩ => ?_
  obtain ⟨_, _, _, _, _, _, found⟩ := once.first_cause calm member
  rw [good] at found
  cases found

theorem Repetitions.first_cause (runs : Repetitions polls crew shared count rounds outcome)
    (calm : shared.IsCalm) (member : results ∈ rounds) (failed : .error failure ∈ results) :
    ∃ before e later, results = before ++ .error e :: later ∧ e.distance = 0 ∧
      (∀ f, .error f ∈ before → f.distance ≠ 0) ∧ outcome = .error e := by
  induction runs with
  | enough => cases member
  | failed once cause =>
    obtain rfl := List.mem_singleton.mp member
    obtain ⟨before, e, later, split, own, first, found⟩ := once.first_cause calm failed
    rw [cause] at found
    obtain rfl := Option.some.inj found
    exact ⟨before, _, later, split, own, first, rfl⟩
  | aborted once good told =>
    obtain rfl := List.mem_singleton.mp member
    exact absurd failed ((once.calm_of_good calm good).2 failure)
  | again once good goesOn rest ih =>
    obtain ⟨calm', noErrors⟩ := once.calm_of_good calm good
    rcases List.mem_cons.mp member with rfl | later
    · exact absurd failed (noErrors failure)
    · obtain ⟨before, e, later, split, own, first, same⟩ := ih calm' later
      exact ⟨before, e, later, split, own, first, by rw [same]; rfl⟩

end

/-- A repetition of a laboratory goes in one of the orders. -/
theorem runOnce_repetition {fuel : Nat} {stations stations' : List Station} {p p' : Premises}
    {results : List (Except WorkerError Report)}
    (ran : runOnce fuel stations p = some (results, stations', p')) : ∃ ends,
      results = ends.map Prod.fst ∧
      Repetition fuel (stations.map fun s => (s.worker, s.stream)) p.shared ends p'.shared ∧
      stations'.map (fun s => (s.worker, s.stream)) =
        (stations.map fun s => (s.worker, s.stream)).zipWith (fun member out => (out.2, member.2)) ends := by
  unfold runOnce at ran
  obtain ⟨⟨ends, p₁⟩, crew, ended⟩ := Option.bind_eq_some_iff.mp ran
  cases ended
  have left : (Round.begin (programs fuel (stations.map fun s => (s.worker, s.stream))) p.shared).chairs.map
      Chair.rest = (stations.map fun s => (⟨(Worker.runInCrew fuel s.stream).program s.worker, s.network, none⟩ :
        Seat (Except WorkerError Report × Worker))).map Seat.program := by
    simp only [Round.begin, programs, List.map_map]
    rfl
  obtain ⟨chairs, done, reaches⟩ := Crew.run_reaches left rfl crew
  refine ⟨ends.map Prod.fst, by simp, ⟨chairs, ?_, reaches⟩, ?_⟩
  · rw [List.map_map]
    exact done
  · rw [List.map_zipWith, List.zipWith_map_left, List.zipWith_map_right]

theorem repeatRun_repetitions {fuel count : Nat} {stations : List Station} {p p' : Premises}
    {outcome : Except WorkerError (List Reports)}
    (ran : repeatRun fuel count stations p = some (outcome, p')) : ∃ rounds,
      Repetitions fuel (stations.map fun s => (s.worker, s.stream)) p.shared count rounds outcome := by
  induction count generalizing stations p outcome with
  | zero =>
    cases ran
    exact ⟨[], .enough⟩
  | succ count ih =>
    unfold repeatRun at ran
    obtain ⟨⟨results, stations₁, p₁⟩, ran, goesOn⟩ := Option.bind_eq_some_iff.mp ran
    obtain ⟨ends, rfl, once, crew⟩ := runOnce_repetition ran
    dsimp only at goesOn
    split at goesOn
    · rename_i e cause
      cases goesOn
      exact ⟨_, .failed once cause⟩
    · rename_i good
      split at goesOn
      · rename_i told
        cases goesOn
        exact ⟨_, .aborted once good told⟩
      · rename_i untold
        obtain ⟨⟨rest, p₂⟩, later, ended⟩ := Option.bind_eq_some_iff.mp goesOn
        cases ended
        obtain ⟨rounds, repetitions⟩ := ih later
        rw [crew] at repetitions
        exact ⟨_, .again once good (by simpa [Premises.shared] using untold) repetitions⟩

/-- What a laboratory runs are repetitions of its compiled boards, from fresh mailboxes. -/
theorem run_repetitions {fuel count : Nat} {l l' : Laboratory} {outcome : Except WorkerError (List Reports)}
    (ran : run fuel l count = some (outcome, l')) :
    (∃ e, l.experiment.compileAll none = .error e ∧ outcome = .error (.compile e)) ∨
      ∃ streams rounds, l.experiment.compileAll none = .ok streams ∧
        Repetitions fuel ((l.stations streams).map fun s => (s.worker, s.stream)) {} count rounds outcome := by
  unfold run at ran
  split at ran
  · rename_i e failed
    cases ran
    exact .inl ⟨e, failed, rfl⟩
  · rename_i streams compiled
    obtain ⟨⟨result, p⟩, repeated, ended⟩ := Option.bind_eq_some_iff.mp ran
    cases ended
    obtain ⟨rounds, repetitions⟩ := repeatRun_repetitions repeated
    exact .inr ⟨streams, rounds, compiled, repetitions⟩

theorem fresh_isCalm : Shared.IsCalm {} := ⟨rfl, .empty⟩

/-- If a repetition fails, somebody in it has failed by himself, and the first of these in board order
decides the error. -/
theorem failure_has_cause {polls count : Nat} {crew : List (Worker × Stream)}
    {rounds : List (List (Except WorkerError Report))} {outcome : Except WorkerError (List Reports)}
    {results : List (Except WorkerError Report)} {failure : WorkerError}
    (runs : Repetitions polls crew {} count rounds outcome) (member : results ∈ rounds)
    (failed : .error failure ∈ results) : ∃ before e later,
      results = before ++ .error e :: later ∧ ¬e.IsConsequence ∧
        (∀ f, .error f ∈ before → f.IsConsequence) ∧ outcome = .error e := by
  obtain ⟨before, e, later, split, own, first, same⟩ := runs.first_cause fresh_isCalm member failed
  exact ⟨before, e, later, split, WorkerError.distance_eq_zero_iff.mp own,
    fun f early => WorkerError.isConsequence_of_distance (first f early), same⟩

/-- The error of a laboratory is one of a repetition. -/
theorem Repetitions.error_mem {polls count : Nat} {crew : List (Worker × Stream)} {shared : Shared}
    {rounds : List (List (Except WorkerError Report))} {outcome : Except WorkerError (List Reports)}
    {e : WorkerError} (runs : Repetitions polls crew shared count rounds outcome) (failed : outcome = .error e) :
    ∃ results ∈ rounds, .error e ∈ results := by
  induction runs with
  | enough | aborted once good told => cases failed
  | failed once cause =>
    obtain rfl := Except.error.inj failed
    exact ⟨_, List.mem_singleton_self _, cause?_mem cause⟩
  | @again _ _ _ _ _ _ outcome once good goesOn rest ih =>
    cases outcome with
    | ok reports => cases failed
    | error e' =>
      obtain ⟨results, member, among⟩ := ih failed
      exact ⟨results, List.mem_cons_of_mem _ member, among⟩

/-- A secondary and its primary, both out of reach. -/
def outOfReach : List Station :=
  [Team.side, Team.sample.primary].map fun m => ⟨m.worker, Team.sampleStream m, networkOf m.config false⟩

theorem outOfReach_has_cause : ∃ rounds outcome results,
    Repetitions 20 (outOfReach.map fun s => (s.worker, s.stream)) {} 1 rounds outcome ∧ results ∈ rounds ∧
      ∃ failure, .error failure ∈ results ∧ ∃ before e later,
        results = before ++ .error e :: later ∧ ¬e.IsConsequence ∧
          (∀ f, .error f ∈ before → f.IsConsequence) ∧ outcome = .error e := by
  have fails : (repeatRun 20 1 outOfReach {}).any fun out => !out.1.toBool := by decide +kernel
  obtain ⟨⟨outcome, p⟩, ran, failed⟩ := (Option.any_eq_true _ _).mp fails
  obtain ⟨rounds, runs⟩ := repeatRun_repetitions ran
  cases outcome with
  | ok reports => cases failed
  | error failure =>
    obtain ⟨results, member, among⟩ := runs.error_mem rfl
    exact ⟨rounds, _, results, runs, member, failure, among, failure_has_cause runs member among⟩

end Laboratory

end Sequencer
