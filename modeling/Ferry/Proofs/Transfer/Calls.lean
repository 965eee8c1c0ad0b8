import Ferry.Transfer.Scene
import Mathlib.Data.List.Basic

/-!
What calls do to a transfer, told by the calls alone. A transfer is called off once its token was,
or one that the token was made from (`isCancelled_callAll_iff`); it counts as announced once it was
announced, which a transfer that is called off is not as queued (`queued_callAll_iff`,
`done_callAll_iff`); a failure that is not replaced stays (`recorded_callAll`).
-/
namespace Ferry.Transfer

variable {ω : Type} {scene before after : Scene ω} {calls : List Call}

namespace Call

/-- The call calls off this token, or one that it was made from. -/
def Cancels (t : Token) (c : Call) : Prop :=
  c = cancel ∨ ∃ above, c = cancelToken above ∧ above.lineage <:+ t.lineage

/-- The call bears on the end of a transfer with this token. -/
def Decides (t : Token) (c : Call) : Prop := (∃ reason, c = fail reason) ∨ c.Cancels t

end Call

/-- The transfer was called off before the calls, or is by one of them. -/
def CalledOff (scene : Scene ω) (calls : List Call) : Prop :=
  scene.isCancelled = true ∨ ∃ c ∈ calls, c.Cancels scene.transfer.token

theorem token_apply (c : Call) (scene : Scene ω) :
    (c.apply scene).transfer.token = scene.transfer.token := by
  cases c with
  | announceQueued =>
    rw [Call.apply]
    split <;> rfl
  | _ => rfl

theorem recorded_apply {c : Call} (clean : ∀ r, c ≠ .fail r) (scene : Scene ω) :
    (c.apply scene).transfer.recorded = scene.transfer.recorded := by
  cases c with
  | fail reason => exact absurd rfl (clean reason)
  | announceQueued =>
    rw [Call.apply]
    split <;> rfl
  | _ => rfl

theorem recorded_callAll (clean : ∀ r, .fail r ∉ calls) (scene : Scene ω) :
    (callAll calls scene).transfer.recorded = scene.transfer.recorded := by
  induction calls generalizing scene with
  | nil => rfl
  | cons c calls ih =>
    have first : ∀ r, c ≠ .fail r := fun r same => clean r (by simp [same])
    have others : ∀ r, .fail r ∉ calls := fun r mem => clean r (List.mem_cons_of_mem c mem)
    rw [callAll, ih others, recorded_apply first]

theorem isCancelled_apply_iff (c : Call) (scene : Scene ω) :
    (c.apply scene).isCancelled = true ↔
      scene.isCancelled = true ∨ c.Cancels scene.transfer.token := by
  cases c with
  | cancel =>
    simp [Call.apply, Call.Cancels, Scene.isCancelled, Transfer.isCancelled,
      Tokens.isCancelled_cancel]
  | cancelToken t =>
    simp [Call.apply, Call.Cancels, Scene.isCancelled, Transfer.isCancelled,
      Tokens.isCancelled_cancel, or_comm]
  | announceQueued =>
    have same : (Call.announceQueued.apply scene).isCancelled = scene.isCancelled := by
      rw [Call.apply]
      split <;> rfl
    simp [same, Call.Cancels]
  | _ =>
    simp [Call.apply, Call.Cancels, Scene.isCancelled, Transfer.isCancelled, Transfer.fail,
      Transfer.setParam, Transfer.setSize, Tokens.make, Tokens.makeFrom, Tokens.isCancelled,
      Scene.markDone]

theorem calledOff_cons {c : Call} :
    CalledOff scene (c :: calls) ↔ CalledOff (c.apply scene) calls := by
  rw [CalledOff, CalledOff, isCancelled_apply_iff, token_apply, or_assoc, List.exists_mem_cons_iff]

theorem isCancelled_callAll_iff (calls : List Call) (scene : Scene ω) :
    (callAll calls scene).isCancelled = true ↔ CalledOff scene calls := by
  induction calls generalizing scene with
  | nil => simp [callAll, CalledOff]
  | cons c calls ih => rw [callAll, ih, calledOff_cons]

theorem queued_apply_iff (c : Call) (scene : Scene ω) :
    (c.apply scene).transfer.queued = true ↔
      scene.transfer.queued = true ∨ c = .announceQueued ∧ scene.isCancelled = false := by
  cases c with
  | announceQueued =>
    cases off : scene.isCancelled with
    | true => simp [Call.apply, off]
    | false => simp [Call.apply, off, Scene.markQueued]
  | _ => simp [Call.apply, Transfer.fail, Transfer.setParam, Transfer.setSize, Scene.markDone]

/-- As long as the transfer is not called off it counts as queued once it was announced so. -/
theorem queued_callAll_iff (live : ¬ CalledOff scene calls) :
    (callAll calls scene).transfer.queued = true ↔
      scene.transfer.queued = true ∨ .announceQueued ∈ calls := by
  induction calls generalizing scene with
  | nil => simp [callAll]
  | cons c calls ih =>
    have before : scene.isCancelled = false := by
      rw [← Bool.not_eq_true]
      exact fun off => live (.inl off)
    rw [calledOff_cons] at live
    rw [callAll, ih live, queued_apply_iff, or_assoc, List.mem_cons, @eq_comm _ c]
    simp only [before, and_true]

theorem done_apply_iff (c : Call) (scene : Scene ω) :
    (c.apply scene).transfer.done = true ↔ scene.transfer.done = true ∨ c = .announceDone := by
  cases c with
  | announceQueued =>
    have same : (Call.announceQueued.apply scene).transfer.done = scene.transfer.done := by
      rw [Call.apply]
      split <;> rfl
    simp [same]
  | _ => simp [Call.apply, Transfer.fail, Transfer.setParam, Transfer.setSize, Scene.markDone]

theorem done_callAll_iff (calls : List Call) (scene : Scene ω) :
    (callAll calls scene).transfer.done = true ↔
      scene.transfer.done = true ∨ .announceDone ∈ calls := by
  induction calls generalizing scene with
  | nil => simp [callAll]
  | cons c calls ih =>
    rw [callAll, ih, done_apply_iff, or_assoc, List.mem_cons, @eq_comm _ c]

/-- What was announced stays so, whatever is called. -/
theorem queued_callAll (queued : scene.transfer.queued = true) (calls : List Call) :
    (callAll calls scene).transfer.queued = true := by
  induction calls generalizing scene with
  | nil => exact queued
  | cons c calls ih => exact ih ((queued_apply_iff c scene).2 (.inl queued))

namespace Through

theorem isCancelled_iff (acts : Through calls before after) :
    after.isCancelled = true ↔ CalledOff before calls := by
  have same : after.isCancelled = (callAll calls before.bare).isCancelled :=
    congrArg Scene.isCancelled acts
  rw [same]
  exact isCancelled_callAll_iff calls before.bare

theorem queued_iff (acts : Through calls before after) (live : ¬ CalledOff before calls) :
    after.transfer.queued = true ↔ before.transfer.queued = true ∨ .announceQueued ∈ calls := by
  have same : after.transfer.queued = (callAll calls before.bare).transfer.queued :=
    congrArg (·.transfer.queued) acts
  rw [same]
  exact queued_callAll_iff live

theorem done_iff (acts : Through calls before after) :
    after.transfer.done = true ↔ before.transfer.done = true ∨ .announceDone ∈ calls := by
  have same : after.transfer.done = (callAll calls before.bare).transfer.done :=
    congrArg (·.transfer.done) acts
  rw [same]
  exact done_callAll_iff calls before.bare

theorem queued (acts : Through calls before after) (queued : before.transfer.queued = true) :
    after.transfer.queued = true := by
  have same : after.transfer.queued = (callAll calls before.bare).transfer.queued :=
    congrArg (·.transfer.queued) acts
  have marked : before.bare.transfer.queued = true := queued
  rw [same]
  exact queued_callAll marked calls

end Through
end Ferry.Transfer
