import Sequencer.Proofs.EditOrder
import Sequencer.Proofs.StreamRows

/-!
Options that are laid over each other.

The options of a script are collected first and laid over the defaults of the board only when it is compiled. That comes
to laying all of them over the defaults one after the other: `merge` is associative, and no destination loses the place
where it was listed first.
-/
namespace Sequencer

namespace Keyed

theorem eraseDups_of_nodup {names : List String} (nodup : names.Nodup) : names.eraseDups = names := by
  induction names with
  | nil => rfl
  | cons first rest ih =>
    rw [List.nodup_cons] at nodup
    have others : rest.filter (fun name => !name == first) = rest := by
      rw [List.filter_eq_self]
      intro name listed
      have differs : name ≠ first := fun same => nodup.1 (same ▸ listed)
      simpa using differs
    rw [List.eraseDups_cons, others, ih nodup.2]

/-- What comes on top has its new names behind all that were listed before. -/
theorem keys_merge_eraseDups {α : Type} {k top : Keyed α} {names : List String} (places : k.keys = names.eraseDups) :
    (k.merge top).keys = (names ++ top.keys).eraseDups := by
  have unlisted : ∀ name, decide (name ∉ k.keys) = !names.elem name := fun name => by
    simp [places]
  have new : (top.keys.filter fun name => !names.elem name).Nodup := top.nodup.filter _
  rw [keys_merge, List.eraseDups_append, ← places, List.removeAll, eraseDups_of_nodup new]
  simp only [unlisted]

end Keyed

/-- Selections of routes laid over each other, if there are any: each destination has the last route that is listed for
it, in the place where it was listed first. -/
inductive Selection.Layered (layers : List Selection) : Option Selection → Prop where
  | none (unset : layers = []) : Layered layers none
  | some {sel : Selection} (set : layers ≠ []) (places : sel.keys = (layers.flatMap Keyed.keys).eraseDups)
      (routes : ∀ name, sel.get? name = (layers.filterMap fun layer => layer.get? name).getLast?) :
      Layered layers (some sel)

namespace RunOptions

/-- The routes of one direction. -/
def selection (o : RunOptions) : Direction → Option Selection
  | .input => o.inputs
  | .output => o.outputs

/-- The last value that a layer has set. -/
def lastSet {α : Type} (field : RunOptions → Option α) (layers : List RunOptions) : Option α :=
  (layers.filterMap field).getLast?

/-- Every option is the last one set, and the routes are laid over each other. -/
structure LaidOver (layers : List RunOptions) (o : RunOptions) : Prop where
  control : o.control = lastSet control layers
  selections : ∀ direction,
    Selection.Layered (layers.filterMap fun layer => layer.selection direction) (o.selection direction)
  externalClock : o.externalClock = lastSet externalClock layers
  ignoreClockLoss : o.ignoreClockLoss = lastSet ignoreClockLoss layers
  syncWait : o.syncWait = lastSet syncWait layers
  syncPhase : o.syncPhase = lastSet syncPhase layers
  strobeDelay : o.strobeDelay = lastSet strobeDelay layers
  cycles : o.cycles = lastSet cycles layers
  simulate : o.simulate = lastSet simulate layers

variable {α : Type} {layers : List RunOptions} {lower upper : RunOptions}

/-! ### A monoid -/

theorem selection_merge (lower upper : RunOptions) (direction : Direction) :
    (lower.merge upper).selection direction =
      mergeSelection (lower.selection direction) (upper.selection direction) := by
  cases direction <;> rfl

theorem mergeSelection_assoc (a b c : Option Selection) :
    mergeSelection (mergeSelection a b) c = mergeSelection a (mergeSelection b c) := by
  cases a <;> cases b <;> cases c <;> simp [mergeSelection, Keyed.merge_assoc]

theorem mergeSelection_self (a : Option Selection) : mergeSelection a a = a := by
  cases a <;> simp [mergeSelection]

theorem orElse_assoc (a b c : Option α) : (c <|> (b <|> a)) = ((c <|> b) <|> a) := by
  cases c <;> rfl

theorem orElse_self (a : Option α) : (a <|> a) = a := by
  cases a <;> rfl

theorem merge_assoc (a b c : RunOptions) : (a.merge b).merge c = a.merge (b.merge c) := by
  simp only [merge, mergeSelection_assoc, orElse_assoc]

theorem unset_merge (o : RunOptions) : unset.merge o = o := by
  simp [merge, unset, mergeSelection]

theorem merge_unset (o : RunOptions) : o.merge unset = o := by
  simp [merge, unset, mergeSelection]

theorem merge_self (o : RunOptions) : o.merge o = o := by
  simp only [merge, mergeSelection_self, orElse_self]

/-- Layers that are put together before they are laid over the lowest one. -/
theorem merge_foldl (lower upper : RunOptions) (later : List RunOptions) :
    lower.merge (later.foldl merge upper) = later.foldl merge (lower.merge upper) := by
  induction later generalizing upper with
  | nil => rfl
  | cons next rest ih => rw [List.foldl_cons, List.foldl_cons, ih, merge_assoc]

/-! ### What each option comes to -/

theorem lastSet_merge {field : RunOptions → Option α}
    (laying : field (lower.merge upper) = (field upper <|> field lower))
    (laid : field lower = lastSet field layers) :
    field (lower.merge upper) = lastSet field (layers ++ [upper]) := by
  rw [laying, laid, lastSet, lastSet, List.filterMap_append, List.getLast?_append]
  cases set : field upper <;> simp [set]

/-- One selection over those that are there already. -/
theorem layered_merge {layers : List Selection} {lower : Option Selection} (layered : Selection.Layered layers lower)
    (upper : Option Selection) : Selection.Layered (layers ++ upper.toList) (mergeSelection lower upper) := by
  cases upper with
  | none =>
    rw [Option.toList_none, List.append_nil]
    cases lower <;> exact layered
  | some top =>
    rw [Option.toList_some]
    cases layered with
    | none unset =>
      subst unset
      refine .some (List.cons_ne_nil _ _) ?_ fun name => ?_
      · simp [Keyed.eraseDups_of_nodup top.nodup, Keyed.keys]
      · cases found : top.get? name <;> simp [found]
    | @some sel set places routes =>
      refine .some (by simp) ?_ fun name => ?_
      · rw [List.flatMap_append, List.flatMap_singleton]
        exact Keyed.keys_merge_eraseDups places
      · rw [Keyed.get?_merge, List.filterMap_append, List.getLast?_append, ← routes]
        cases found : top.get? name <;> simp [found]

namespace LaidOver

theorem nil : LaidOver [] unset where
  control := rfl
  selections direction := by cases direction <;> exact .none rfl
  externalClock := rfl
  ignoreClockLoss := rfl
  syncWait := rfl
  syncPhase := rfl
  strobeDelay := rfl
  cycles := rfl
  simulate := rfl

theorem merge (laid : LaidOver layers lower) (upper : RunOptions) :
    LaidOver (layers ++ [upper]) (lower.merge upper) where
  control := lastSet_merge rfl laid.control
  selections direction := by
    have alone : [upper].filterMap (fun layer => layer.selection direction) = (upper.selection direction).toList := by
      cases set : upper.selection direction <;> simp [set]
    rw [selection_merge, List.filterMap_append, alone]
    exact layered_merge (laid.selections direction) (upper.selection direction)
  externalClock := lastSet_merge rfl laid.externalClock
  ignoreClockLoss := lastSet_merge rfl laid.ignoreClockLoss
  syncWait := lastSet_merge rfl laid.syncWait
  syncPhase := lastSet_merge rfl laid.syncPhase
  strobeDelay := lastSet_merge rfl laid.strobeDelay
  cycles := lastSet_merge rfl laid.cycles
  simulate := lastSet_merge rfl laid.simulate

theorem append (laid : LaidOver layers lower) (later : List RunOptions) :
    LaidOver (layers ++ later) (later.foldl RunOptions.merge lower) := by
  induction later generalizing layers lower with
  | nil => rwa [List.append_nil]
  | cons next rest ih =>
    rw [List.append_cons]
    exact ih (laid.merge next)

/-- Options laid over the lowest one after the other. -/
theorem foldl (lowest : RunOptions) (later : List RunOptions) :
    LaidOver (lowest :: later) (later.foldl RunOptions.merge lowest) := by
  have laid := append nil (lowest :: later)
  rwa [List.foldl_cons, unset_merge] at laid

end LaidOver

end RunOptions

/-! ### The options of a board -/

namespace Board

/-- A call of a script on one of its boards. -/
inductive Call where
  | register (part : Registration)
  /-- A line with any codec. -/
  | line (device name : String) (bit : Nat) (codec : Codec) (default : Float)
  | codec (added : Codec)
  | timeline (edit : TimelineEdit)
  | options (passed : RunOptions)
  | clear

/-- The call on a board. -/
def Call.apply (b : Board) : Call → Except BoardError Board
  | register part => part.apply b
  | line device name bit converter default => b.addLine device name bit converter default
  | .codec added => .ok (b.registerCodec added)
  | timeline edit => edit.apply b
  | .options passed => .ok (b.setOptions passed)
  | clear => .ok b.clear

/-- A call that fails leaves the board as it is. -/
def after (b : Board) (call : Call) : Board :=
  match call.apply b with
  | .ok b' => b'
  | .error _ => b

def afterAll (b : Board) (calls : List Call) : Board := calls.foldl after b

/-- The options that have been passed since they were last taken back. -/
def Call.passed (given : List RunOptions) : Call → List RunOptions
  | .options passed => given ++ [passed]
  | clear => []
  | _ => given

/-- The options that a sequence of calls has passed since they were last taken back. -/
def passedBy (calls : List Call) : List RunOptions := calls.foldl Call.passed []

variable {b b' : Board} {given : List RunOptions}

theorem SameSettings.register {part : Registration} (success : part.apply b = .ok b') : SameSettings b b' := by
  cases part with
  | pseudoClock name => exact addPseudoClock success
  | clockLine clock name => exact addClockLine success
  | digitalBank line name rack address => exact addDigitalBank success
  | digitalLine bank name bit default => exact addDigitalLine success
  | analogOutput line name rack address tag default => exact addAnalogOutput success
  | synthesizer line name rack address frequency amplitude phase => exact addSynthesizer success

theorem SameSettings.timeline {edit : TimelineEdit} (success : edit.apply b = .ok b') : SameSettings b b' := by
  cases edit with
  | instruction channel call => exact editChannel success
  | instructionOf device channel call =>
    rw [apply_instructionOf] at success
    split at success
    · cases success
    · split at success
      · obtain ⟨_, _, success⟩ := bind_success success
        cases success
        exact ⟨rfl, rfl⟩
      · cases success
  | marker rack time kind =>
    obtain ⟨_, _, marked⟩ := bind_success success
    split at marked
    · cases marked
      exact ⟨rfl, rfl⟩
    · cases marked

/-- The options that a board has collected, and the configuration that it started with. -/
structure Collected (config : BoardConfig) (given : List RunOptions) (b : Board) : Prop where
  config : b.config = config
  options : b.options = given.foldl RunOptions.merge .unset

theorem Collected.same {config : BoardConfig} (collected : Collected config given b) (same : SameSettings b b') :
    Collected config given b' :=
  ⟨same.config.trans collected.config, same.options.trans collected.options⟩

/-- A call lays options over those of the board, takes them back, or leaves them as they are. -/
theorem Collected.after {config : BoardConfig} (collected : Collected config given b) (call : Call) :
    Collected config (call.passed given) (b.after call) := by
  unfold Board.after
  cases outcome : call.apply b with
  | error e =>
    cases call with
    | options passed => cases outcome
    | clear => cases outcome
    | _ => exact collected
  | ok b' =>
    cases call with
    | register part =>
      have registered : part.apply b = .ok b' := outcome
      exact collected.same (SameSettings.register registered)
    | line device name bit converter default =>
      have added : b.addLine device name bit converter default = .ok b' := outcome
      exact collected.same (SameSettings.addLine added)
    | timeline edit =>
      have edited : edit.apply b = .ok b' := outcome
      exact collected.same (SameSettings.timeline edited)
    | codec added =>
      cases outcome
      exact collected.same ⟨rfl, rfl⟩
    | options passed =>
      cases outcome
      refine ⟨collected.config, ?_⟩
      rw [Call.passed, List.foldl_append, ← collected.options]
      rfl
    | clear =>
      cases outcome
      exact ⟨collected.config, rfl⟩

theorem Collected.afterAll {config : BoardConfig} (collected : Collected config given b) (calls : List Call) :
    Collected config (calls.foldl Call.passed given) (b.afterAll calls) := by
  induction calls generalizing given b with
  | nil => exact collected
  | cons call rest ih => exact ih (collected.after call)

theorem Sound.after (sound : Sound b) (call : Call) : Sound (b.after call) := by
  unfold Board.after
  cases outcome : call.apply b with
  | error e => exact sound
  | ok b' =>
    cases call with
    | register part => exact sound.edit (Registration.edit_of_apply outcome)
    | line device name bit converter default => exact sound.addLine outcome
    | timeline edit => exact ((Alike.refl b).apply sound outcome).1
    | codec added =>
      cases outcome
      exact sound.edit (.codec added)
    | options passed =>
      cases outcome
      exact sound.edit (.options passed)
    | clear =>
      cases outcome
      exact sound.clear

theorem Sound.afterAll (sound : Sound b) (calls : List Call) : Sound (b.afterAll calls) := by
  induction calls generalizing b with
  | nil => exact sound
  | cons call rest ih => exact ih (sound.after call)

theorem new_collected {config : BoardConfig} {fresh : Board} (success : Board.new config = .ok fresh) :
    Collected config [] fresh := by
  obtain ⟨_, _, success⟩ := bind_success success
  cases success
  exact ⟨rfl, rfl⟩

/-- The stream has the options that were passed, laid over the defaults one after the other. -/
theorem compile_options {config : BoardConfig} {stopTime : Option Float} {s : Stream}
    (collected : Collected config given b) (success : b.compile stopTime = .ok s) :
    s.options = given.foldl RunOptions.merge config.defaults := by
  rw [eq_streamWith success]
  show b.config.defaults.merge b.options = _
  rw [collected.config, collected.options, RunOptions.merge_foldl, RunOptions.merge_unset]

/-- Options override each other in the order of laying, however they are put together. So whatever a script calls, the
options of the stream are those that it has passed, each laid over what the defaults and the earlier ones come to. -/
theorem options_override_in_order :
    (∀ a b c : RunOptions, (a.merge b).merge c = a.merge (b.merge c)) ∧
    (∀ o : RunOptions, RunOptions.unset.merge o = o ∧ o.merge .unset = o ∧ o.merge o = o) ∧
    ∀ (config : BoardConfig) (fresh : Board) (calls : List Call) (stopTime : Option Float) (s : Stream),
      Board.new config = .ok fresh → (fresh.afterAll calls).compile stopTime = .ok s →
        s.options = (passedBy calls).foldl RunOptions.merge config.defaults ∧
        RunOptions.LaidOver (config.defaults :: passedBy calls) s.options := by
  refine ⟨RunOptions.merge_assoc, fun o => ⟨o.unset_merge, o.merge_unset, o.merge_self⟩, ?_⟩
  intro config fresh calls stopTime s made success
  have folded := compile_options ((new_collected made).afterAll calls) success
  refine ⟨folded, ?_⟩
  rw [folded]
  exact .foldl config.defaults (passedBy calls)

def layeredConfig : BoardConfig where
  name := "main"
  defaults :=
    { inputs := some (Keyed.ofList [("trigger_start", ⟨"in0", "rising"⟩), ("trigger_stop", ⟨"in1", "falling"⟩)])
      cycles := some 3 }

theorem layeredConfig_valid : (Board.new layeredConfig).toOption.isSome := by decide +kernel

/-- Options that are taken back, a bank with a line that is added twice, and options over the defaults. -/
def layeredCalls : List Call :=
  [.options { cycles := some 7 }, .clear, .register (.pseudoClock "pc"), .register (.clockLine "pc" "cl"),
    .register (.digitalBank "cl" "bank0" 0 5), .register (.digitalLine "bank0" "do0" 3 false),
    .options { inputs := some (Keyed.ofList [("bit_IRQ", ⟨"data_7", "level"⟩), ("trigger_start", ⟨"in2", "level"⟩)]) },
    .register (.digitalLine "bank0" "do0" 4 true),
    .options { inputs := some (Keyed.ofList [("bit_IRQ", ⟨"none", "level"⟩)]), simulate := some true }]

theorem layered_options : ∃ fresh s, Board.new layeredConfig = .ok fresh ∧
    (fresh.afterAll layeredCalls).compile none = .ok s ∧
    s.options.inputs.map Keyed.entries = some [("trigger_start", ⟨"in2", "level"⟩),
      ("trigger_stop", ⟨"in1", "falling"⟩), ("bit_IRQ", ⟨"none", "level"⟩)] ∧
    s.options.cycles = some 3 ∧ s.options.simulate = some true ∧ s.options.control = none := by
  have made := eq_ok_get layeredConfig_valid
  obtain ⟨s, success⟩ : ∃ s, (((Board.new layeredConfig).toOption.get layeredConfig_valid).afterAll
      layeredCalls).compile none = .ok s :=
    compiles ((new_sound made).afterAll layeredCalls) (by decide +kernel) (by decide +kernel) (by decide +kernel)
      (by decide +kernel) (by decide +kernel)
  obtain ⟨options, laid⟩ := options_override_in_order.2.2 _ _ layeredCalls none s made success
  refine ⟨_, s, made, success, ?_, laid.cycles, laid.simulate, laid.control⟩
  rw [options]
  decide +kernel

end Board
end Sequencer
