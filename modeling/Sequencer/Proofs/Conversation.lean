import Sequencer.Proofs.ClientTalk

/-!
Parts of a client's program that ask with some commands only, and what is left after taking leave of a
board.
-/
namespace Sequencer

namespace Client
variable {law : Law} {c : Client} {v : View}

/-- One request with its answer is talk of the request's kind. -/
theorem asked_within {α : Type} {p : LinkM α} {request : Frame} {expected : Command}
    {allowed : List LinkState} {value : Frame → α} {kind : RunEvent → Bool}
    (kind_request : kind (.requested request)) (kind_answer : ∀ answer, kind (.answered answer))
    (spec : ∀ c v, v.line = .ready →
      Task.wp (linkWatch law) p (v.Asks request expected allowed value c) c v) :
    Task.Within (linkWatch law) (fun _ => ()) kind p := by
  intro c v ready
  refine Task.mono (spec c v ready) ?_
  intro r c' v' ⟨outcome, asked, _⟩
  exact ⟨rfl, asked.grows ready kind_request kind_answer⟩

/-- A part of a client's program that asks with these commands only, however it ends. The client is
in touch as before, unless it may take leave of its board. -/
def Talks {α : Type} (law : Law) (commands : List Command) (p : LinkM α) : Prop :=
  ∀ c v, v.line = .ready → Task.wp (linkWatch law) p (fun _ c' v' =>
    v.Grows (RunEvent.isTalkOf commands) v' ∧
      (.close ∉ commands → c.InTouch v.events → c'.InTouch v'.events)) c v

namespace Talks
variable {α β : Type} {commands : List Command} {p : LinkM α}

theorem within {kind : RunEvent → Bool} (talks : Talks law commands p)
    (weaker : ∀ x : RunEvent, x.isTalkOf commands → kind x) :
    Task.Within (linkWatch law) (fun _ => ()) kind p := fun c v ready =>
  Task.mono (talks c v ready) fun _ _ _ post => ⟨rfl, post.1.weaken weaker⟩

theorem pure {a : α} : Talks law commands (Pure.pure a : LinkM α) := fun _ _ ready =>
  ⟨.refl ready, fun _ => id⟩

theorem throw {e : LinkError} : Talks law commands (MonadExceptOf.throw e : LinkM α) := fun _ _ ready =>
  ⟨.refl ready, fun _ => id⟩

theorem bind {f : α → LinkM β} (first : Talks law commands p) (next : ∀ a, Talks law commands (f a)) :
    Talks law commands (p >>= f) := by
  intro c v ready
  refine Task.seq (first c v ready) (fun a c' v' post => ?_) fun e c' v' post => post
  refine Task.mono (next a c' v' post.1.1) fun r c'' v'' post' => ?_
  exact ⟨post.1.trans post'.1, fun stays touch => post'.2 stays (post.2 stays touch)⟩

theorem get {f : Client → LinkM β} (next : ∀ c, Talks law commands (f c)) :
    Talks law commands (MonadState.get >>= f) := fun c v ready => next c c v ready

theorem tryCatch {handler : LinkError → LinkM α} (body : Talks law commands p)
    (handled : ∀ e, Talks law commands (handler e)) :
    Talks law commands (MonadExceptOf.tryCatch p handler) := by
  intro c v ready
  refine Task.wp_tryCatch (Task.mono (body c v ready) fun r c' v' post => ?_)
  cases r with
  | ok a => exact post
  | error e =>
    refine Task.mono (handled e c' v' post.1.1) fun r c'' v'' post' => ?_
    exact ⟨post.1.trans post'.1, fun stays touch => post'.2 stays (post.2 stays touch)⟩

theorem ignoringErrors {p : LinkM Unit} (talks : Talks law commands p) :
    Talks law commands (Client.ignoringErrors p) := .tryCatch talks fun _ => .pure

theorem weaken {commands' : List Command} (talks : Talks law commands p)
    (more : commands ⊆ commands') : Talks law commands' p := by
  intro c v ready
  refine Task.mono (talks c v ready) fun r c' v' post => ⟨post.1.weaken fun x => ?_, fun stays => ?_⟩
  · cases x with
    | requested request => simpa [RunEvent.isTalkOf] using @more request.command
    | _ => exact id
  · exact post.2 fun listed => stays (more listed)

end Talks

section
variable {commands : List Command}

theorem asked_talks {α : Type} {p : LinkM α} {request : Frame} {expected : Command}
    {allowed : List LinkState} {value : Frame → α} (listed : request.command ∈ commands)
    (reply : request.reply = expected) (spec : ∀ c v, v.line = .ready →
      Task.wp (linkWatch law) p (v.Asks request expected allowed value c) c v) :
    Talks law commands p := by
  intro c v ready
  refine Task.mono (spec c v ready) ?_
  intro r c' v' ⟨outcome, asked, _⟩
  have kind : RunEvent.isTalkOf commands (.requested request) := by simpa [RunEvent.isTalkOf] using listed
  exact ⟨asked.grows ready kind fun _ => rfl, fun _ => asked.inTouch reply Can.linked⟩

theorem attach_talks (connection : ConnectionId) : Talks law commands (attach connection) := by
  intro c v ready
  unfold attach
  refine Task.seq (dropConnection_spec ready) ?_ ?_
  · rintro _ c' v' ⟨_, rfl⟩
    exact ⟨.refl ready, fun _ _ _ _ => ⟨rfl, by simp⟩⟩
  · rintro e c' v' ⟨impossible, _⟩
    cases impossible

end

section
variable (lenient : law.IsLenient)
include lenient

theorem write_talks (payload : List Byte) : Talks law [.write] (write payload) := by
  intro c v ready
  refine Task.mono (write_spec lenient ready payload) ?_
  rintro r c' v' (⟨_, missed⟩ | ⟨_, rfl, rfl⟩ | @⟨count, answer, could, rfl, _, linked⟩)
  · have asked : v.Asked _ .ack (c.Can [.configured, .armed]) c c' v' (.error .peerClosed) := .missed missed
    exact ⟨asked.grows ready rfl fun _ => rfl, fun _ => asked.inTouch rfl Can.linked⟩
  · exact ⟨.refl ready, fun _ => id⟩
  · refine ⟨⟨rfl, _, List.append_assoc _ _ _, by simp [exchange, RunEvent.isTalkOf, Frame.command]⟩, ?_⟩
    intro _ _ steady _
    rw [exchange, List.append_assoc] at steady
    exact linked (List.isChain_pair.mp steady.right_of_append.tail)

theorem stop_talks : Talks law [.stop] stop :=
  asked_talks (by decide) rfl fun _ _ ready => stop_spec lenient ready

theorem close_talks : Talks law [.close] close := by
  have leaving : Talks law [.close] dropConnection := by
    intro c v ready
    refine Task.mono (dropConnection_spec ready) ?_
    rintro r c' v' ⟨_, rfl⟩
    exact ⟨.refl ready, by simp⟩
  have asked : Talks law [.close] (transact .close .ack) := by
    intro c v ready
    refine Task.mono (transact_spec lenient ready (by decide)
      (lenient.requested _ _ (by decide)) fun _ _ => rfl) ?_
    rintro r c' v' (⟨e, _, missed⟩ | ⟨f, _, _, _, _, rfl⟩)
    · exact ⟨missed.grows ready rfl fun _ => rfl, by simp⟩
    · exact ⟨View.talk_grows rfl fun _ => rfl, by simp⟩
  unfold close
  refine .get fun c => ?_
  split
  · exact .pure
  · exact .tryCatch (.bind asked fun _ => leaving) fun e => .bind leaving fun _ => .throw

omit lenient in
theorem ignoringErrors_spec {p : LinkM Unit} {Q : Client → View → Prop}
    (spec : Task.wp (linkWatch law) p (fun _ c' v' => Q c' v') c v) :
    Task.wp (linkWatch law) (ignoringErrors p) (fun r c' v' => r = .ok () ∧ Q c' v') c v := by
  refine Task.wp_tryCatch (Task.mono spec fun r c' v' holds => ?_)
  cases r with
  | ok u => exact ⟨rfl, holds⟩
  | error e => exact ⟨rfl, holds⟩

omit lenient in
theorem IsLinked.can (linked : c.IsLinked) : c.Can anyConnected := by
  refine ⟨linked, ?_⟩
  have inUse := linked.inUse
  cases state : c.state <;> simp_all [anyConnected]

/-- A linked client takes leave of its board. -/
theorem close_spec (ready : v.line = .ready) (linked : c.IsLinked) :
    Task.wp (linkWatch law) close (fun _ _ v' =>
      ∃ answer, v'.events = v.events ++ [.requested .close, .answered answer]) c v := by
  have asked : Task.wp (linkWatch law) (transact .close .ack) (fun _ _ v' => v'.line = .ready ∧
      ∃ answer, v'.events = v.events ++ [.requested .close, .answered answer]) c v := by
    refine Task.mono (transact_spec lenient ready (by decide) (lenient.requested _ _ (by decide))
      fun _ _ => rfl) ?_
    rintro r c' v' (⟨e, _, ⟨unable, _⟩ | ⟨_, rfl⟩⟩ | ⟨f, _, _, _, _, rfl⟩)
    · exact absurd linked.connected unable
    · exact ⟨rfl, _, rfl⟩
    · exact ⟨rfl, _, rfl⟩
  unfold close
  refine Task.wp_get ?_
  rw [if_neg (by simpa [isConnected] using linked.inUse)]
  refine Task.wp_tryCatch (Task.seq asked ?_ ?_)
  · intro f c' v' ⟨ready', closed⟩
    refine Task.mono (dropConnection_spec ready') ?_
    rintro r c'' v'' ⟨rfl, rfl⟩
    exact closed
  · intro e c' v' ⟨ready', closed⟩
    refine Task.seq (dropConnection_spec ready') ?_ ?_
    · rintro _ c'' v'' ⟨_, rfl⟩
      exact closed
    · rintro _ c'' v'' ⟨impossible, _⟩
      cases impossible

theorem abort_talks : Talks law [.stop, .close] abort := by
  unfold abort
  refine .get fun c => ?_
  split
  · exact .pure
  · exact .bind ((stop_talks lenient).weaken (by simp)).ignoringErrors fun _ =>
      ((close_talks lenient).weaken (by simp)).ignoringErrors

/-- An abort never fails. As long as the connection is not lost it stops the board and takes leave. -/
theorem abort_spec (ready : v.line = .ready) : Task.wp (linkWatch law) abort (fun r _ v' => r = .ok () ∧
    (c.IsLinked → Steady v'.events → ∃ later, v'.events = v.events ++ .requested .stop :: later ∧
      .requested .close ∈ later)) c v := by
  have stopping : Task.wp (linkWatch law) stop (fun _ c' v' => v'.line = .ready ∧
      (c.IsLinked → ∃ answer, v'.events = v.events ++ [.requested .stop, .answered answer] ∧
        (Suits .ack answer → c'.IsLinked))) c v := by
    refine Task.mono (stop_spec lenient ready) ?_
    rintro r c' v' ⟨outcome, asked, _⟩
    rcases asked.sent Can.linked with ⟨unable, rfl, rfl⟩ | ⟨answer, rfl, kept⟩
    · exact ⟨ready, fun linked => absurd linked.can unable⟩
    · exact ⟨rfl, fun _ => ⟨answer, rfl, kept⟩⟩
  have closing (c : Client) (v : View) (ready : v.line = .ready) :
      Task.wp (linkWatch law) close (fun _ _ v' => v.events <+: v'.events ∧ (c.IsLinked →
        ∃ answer, v'.events = v.events ++ [.requested .close, .answered answer])) c v := by
    by_cases linked : c.IsLinked
    · refine Task.mono (close_spec lenient ready linked) ?_
      rintro r c' v' ⟨answer, closed⟩
      exact ⟨closed ▸ List.prefix_append _ _, fun _ => ⟨answer, closed⟩⟩
    · refine Task.mono (close_talks lenient c v ready) ?_
      rintro r c' v' ⟨⟨_, new, events, _⟩, _⟩
      exact ⟨events ▸ List.prefix_append _ _, fun is => absurd is linked⟩
  unfold abort
  refine Task.wp_get ?_
  split
  · rename_i gone
    exact ⟨rfl, fun linked => absurd gone (by simpa [isConnected] using linked.inUse)⟩
  · refine Task.seq (ignoringErrors_spec stopping) ?_ ?_
    · rintro _ c₁ v₁ ⟨_, ready₁, stopped⟩
      refine Task.mono (ignoringErrors_spec (closing c₁ v₁ ready₁)) ?_
      rintro r c₂ v₂ ⟨rfl, later, left⟩
      refine ⟨rfl, fun linked steady => ?_⟩
      obtain ⟨answer, events, kept⟩ := stopped linked
      have suits : Suits (Frame.reply .stop) answer := View.suits_of_steady (events ▸ steady.of_later later)
      obtain ⟨answer', closed⟩ := left (kept suits)
      exact ⟨[.answered answer, .requested .close, .answered answer'], by simp [closed, events], by simp⟩
    · rintro e c₁ v₁ ⟨impossible, _⟩
      cases impossible

end

end Client

end Sequencer
