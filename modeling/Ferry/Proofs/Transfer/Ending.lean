import Ferry.Proofs.Transfer.Announcement

/-!
How a transfer ends, by what was done to it. A call records a failure, calls off a token, or does
neither; hooks can do no more to a transfer than call. After any calls its failure is the one that
was recorded last, or else that it was called off, or else there is none (`Ends`,
`Through.ends_iff`), and a hook with two handlers runs the one for that.

A hook that makes no deciding call leaves the failure as it found it (`Hook.Quiet.failure?_eq`). By
induction on the hooks of one announcement all of them find the same (`runAll_fixed`).
-/
namespace Ferry.Transfer

variable {ω : Type}

/-- How calls have a transfer end of which no failure was recorded before. -/
inductive Ends (scene : Scene ω) (calls : List Call) : Option Failure → Prop
  | recorded {reason earlier later} (eq : calls = earlier ++ .fail reason :: later)
      (last : ∀ r, .fail r ∉ later) : Ends scene calls (some (.recorded reason))
  | cancelled (clean : ∀ r, .fail r ∉ calls) (off : CalledOff scene calls) :
      Ends scene calls (some .cancelled)
  | succeeded (clean : ∀ r, .fail r ∉ calls) (live : ¬ CalledOff scene calls) :
      Ends scene calls none

theorem failure?_of_recorded {scene : Scene ω} {reason : String}
    (recorded : scene.transfer.recorded = some reason) :
    scene.failure? = some (.recorded reason) := by
  simp [Scene.failure?, Transfer.failure?, recorded]

theorem failure?_of_clean {scene : Scene ω} (clean : scene.transfer.recorded = none) :
    scene.failure? = if scene.isCancelled then some .cancelled else none := by
  simp only [Scene.failure?, Transfer.failure?, clean]
  rfl

theorem clean_or_last (calls : List Call) : (∀ r, .fail r ∉ calls) ∨
    ∃ reason earlier later, calls = earlier ++ .fail reason :: later ∧ ∀ r, .fail r ∉ later := by
  induction calls with
  | nil => exact .inl fun r => List.not_mem_nil
  | cons c calls ih =>
    rcases ih with clean | ⟨reason, earlier, later, rfl, last⟩
    · cases c with
      | fail reason => exact .inr ⟨reason, [], calls, rfl, clean⟩
      | _ => exact .inl fun r mem => clean r (by simpa using mem)
    · exact .inr ⟨reason, c :: earlier, later, rfl, last⟩

theorem exists_ends (scene : Scene ω) (calls : List Call) :
    ∃ outcome, Ends scene calls outcome := by
  rcases clean_or_last calls with clean | ⟨reason, earlier, later, eq, last⟩
  · -- without a failure on record it matters whether something was called off
    by_cases off : CalledOff scene calls
    · exact ⟨_, .cancelled clean off⟩
    · exact ⟨_, .succeeded clean off⟩
  · exact ⟨_, .recorded eq last⟩

theorem Ends.failure?_eq {scene : Scene ω} {calls : List Call} {outcome : Option Failure}
    (fresh : scene.transfer.recorded = none) (ends : Ends scene calls outcome) :
    (callAll calls scene.bare).failure? = outcome := by
  cases ends with
  | recorded eq last =>
    apply failure?_of_recorded
    rw [eq, callAll_append, callAll, recorded_callAll last]
    rfl
  | cancelled clean off =>
    have off : (callAll calls scene.bare).isCancelled = true :=
      (isCancelled_callAll_iff calls scene.bare).2 off
    have recorded : (callAll calls scene.bare).transfer.recorded = none :=
      (recorded_callAll clean scene.bare).trans fresh
    rw [failure?_of_clean recorded, if_pos off]
  | succeeded clean live =>
    have live : ¬ (callAll calls scene.bare).isCancelled = true :=
      mt (isCancelled_callAll_iff calls scene.bare).1 live
    have recorded : (callAll calls scene.bare).transfer.recorded = none :=
      (recorded_callAll clean scene.bare).trans fresh
    rw [failure?_of_clean recorded, if_neg live]

/-- What the calls say of the end is what the transfer says to which they lead. -/
theorem Through.ends_iff {scene after : Scene ω} {calls : List Call}
    (fresh : scene.transfer.recorded = none) (acts : Through calls scene after)
    {outcome : Option Failure} : Ends scene calls outcome ↔ outcome = after.failure? := by
  have finds : (callAll calls scene.bare).failure? = after.failure? :=
    (congrArg Scene.failure? acts).symm
  constructor
  · intro ends
    rw [← finds, ends.failure?_eq fresh]
  · rintro rfl
    obtain ⟨outcome, ends⟩ := exists_ends scene calls
    rwa [← finds, ends.failure?_eq fresh]

/-- The hook makes no call that bears on the end of the transfer. -/
def Hook.Quiet (hook : Hook ω) : Prop :=
  ∀ scene, ∃ calls, Through calls scene (hook scene).2 ∧
    ∀ c ∈ calls, ¬ c.Decides scene.transfer.token

theorem Hook.Quiet.failure?_eq {hook : Hook ω} (quiet : hook.Quiet) (scene : Scene ω) :
    (hook scene).2.failure? = scene.failure? := by
  obtain ⟨calls, acts, idle⟩ := quiet scene
  have recorded : (callAll calls scene.bare).transfer.recorded = scene.transfer.recorded :=
    recorded_callAll (fun r mem => idle _ mem (.inl ⟨r, rfl⟩)) scene.bare
  have cancelled : (callAll calls scene.bare).isCancelled = scene.isCancelled := by
    rw [Bool.eq_iff_iff, isCancelled_callAll_iff]
    refine or_iff_left ?_
    rintro ⟨c, mem, cancels⟩
    exact idle c mem (.inr cancels)
  have same : (hook scene).2.failure? = (callAll calls scene.bare).failure? :=
    congrArg Scene.failure? acts
  rw [same]
  cases clean : scene.transfer.recorded with
  | none => rw [failure?_of_clean (recorded.trans clean), failure?_of_clean clean, cancelled]
  | some reason => rw [failure?_of_recorded (recorded.trans clean), failure?_of_recorded clean]

/-- The handler for an end. -/
def Endings.handler (e : Endings ω) : Option Failure → Hook ω
  | some failure => e.onFailure failure
  | none => e.onSuccess

theorem Endings.hook_eq (e : Endings ω) (scene : Scene ω) :
    e.hook scene = e.handler scene.failure? scene := by
  show (match scene.failure? with
    | some failure => e.onFailure failure scene
    | none => e.onSuccess scene) = _
  cases scene.failure? <;> rfl

/-- A hook for done transfers: the same for all ends, or one with two handlers. -/
inductive DoneHook (ω : Type)
  | whole (hook : Hook ω)
  | byEnding (e : Endings ω)

namespace DoneHook

def hook : DoneHook ω → Hook ω
  | whole hook => hook
  | byEnding e => e.hook

/-- The hook with its handler chosen beforehand. -/
def fixed (outcome : Option Failure) : DoneHook ω → Hook ω
  | whole hook => hook
  | byEnding e => e.handler outcome

theorem hook_eq_fixed (h : DoneHook ω) (scene : Scene ω) :
    h.hook scene = h.fixed scene.failure? scene := by
  cases h with
  | whole hook => rfl
  | byEnding e => exact e.hook_eq scene

end DoneHook

theorem runAll_fixed (hooks : List (DoneHook ω)) (quiet : ∀ h ∈ hooks, h.hook.Quiet)
    (scene : Scene ω) : runAll (hooks.map DoneHook.hook) scene =
      runAll (hooks.map (DoneHook.fixed scene.failure?)) scene := by
  induction hooks generalizing scene with
  | nil => rfl
  | cons h hooks ih =>
    -- the hooks after the first find what it found
    have still : (h.hook scene).2.failure? = scene.failure? :=
      (quiet h List.mem_cons_self).failure?_eq scene
    have rest := ih (fun k mem => quiet k (List.mem_cons_of_mem h mem)) (h.hook scene).2
    rw [still] at rest
    simp only [List.map_cons, runAll, Hook.andAlso, rest, ← h.hook_eq_fixed scene]

/-- A hook with two handlers runs one of them, once: the one that what happened to the transfer
calls for, with the failure that was recorded last, or else because it was called off. As long as
the hooks of an announcement leave that alone, they all run the handler for the same end. The calls
are those from outside and those of hooks, as every run makes them. -/
theorem endings_follow_history {scene : Scene ω} (fresh : scene.transfer.recorded = none)
    {calls : List Call} {after : Scene ω} (acts : Through calls scene after) :
    ∃ outcome, (∀ other, Ends scene calls other ↔ other = outcome) ∧
      (∀ e : Endings ω, e.hook after = e.handler outcome after) ∧
      ∀ (observers : List (Observer ω)) (hooks : List (DoneHook ω)),
        observers.filterMap (·.onDone) = hooks.map DoneHook.hook → (∀ h ∈ hooks, h.hook.Quiet) →
          notifyDone observers after =
            notifyDone (hooks.map fun h => ⟨none, some (h.fixed outcome)⟩) after := by
  refine ⟨after.failure?, fun other => acts.ends_iff fresh, fun e => e.hook_eq after, ?_⟩
  intro observers hooks own quiet
  have chosen : (hooks.map fun h => (⟨none, some (h.fixed after.failure?)⟩ : Observer ω)).filterMap
      (·.onDone) = hooks.map (DoneHook.fixed after.failure?) := by
    rw [List.filterMap_map, ← List.filterMap_eq_map]
    rfl
  -- to be marked as done makes no difference to how a transfer has failed
  have alike : runAll (hooks.map DoneHook.hook) after.markDone =
      runAll (hooks.map (DoneHook.fixed after.failure?)) after.markDone :=
    runAll_fixed hooks quiet after.markDone
  simp only [notifyDone, own, chosen, alike]

/-- A hook that sets the size. -/
def sizer : Hook (List String) := .of fun scene => (.ok (), [.setSize 5], scene.world)

/-- Notes how the transfer ended, and fails if it did. -/
def watcher : Endings (List String) where
  onSuccess := .of fun scene => (.ok (), [], scene.world ++ ["all is well"])
  onFailure failure :=
    .of fun scene => (.error (.hook "watcher"), [], scene.world ++ [failure.message])

theorem quiet_sizer : sizer.Quiet := by
  intro scene
  refine ⟨[.setSize 5], rfl, ?_⟩
  simp [Call.Decides, Call.Cancels]

theorem quiet_watcher : watcher.hook.Quiet := by
  intro scene
  refine ⟨[], ?_, nofun⟩
  rw [Through, watcher.hook_eq]
  cases scene.failure? <;> rfl

/-- The download, announced to an observer that sets its size. Then a failure is recorded, and the
batch is called off. -/
def failing : List (Event (List String)) :=
  [.queued [⟨some sizer, none⟩], .call (.fail "disk full"), callOff]

/-- A failure that was recorded before the batch was called off is the one that both watchers see,
the second one after a hook that failed and one that sets the size. -/
theorem recorded_failure_outlasts_batch :
    download.transfer.recorded = none ∧
      Through (told download failing) download (download.run failing) ∧
      (∀ h ∈ [DoneHook.byEnding watcher, .whole sizer, .byEnding watcher], h.hook.Quiet) ∧
      watcher.hook (download.run failing) =
        watcher.onFailure (.recorded "disk full") (download.run failing) ∧
      (notifyDone [⟨none, some watcher.hook⟩, ⟨some sizer, some sizer⟩,
        ⟨none, some watcher.hook⟩] (download.run failing)).2.world =
          ["disk full", "disk full"] := by
  have fresh : download.transfer.recorded = none := rfl
  have acts : Through (told download failing) download (download.run failing) :=
    through_told failing download
  have story : told download failing =
      [.announceQueued, .setSize 5] ++ .fail "disk full" :: [.cancelToken ⟨[0]⟩] := rfl
  have quiet : ∀ h ∈ [DoneHook.byEnding watcher, .whole sizer, .byEnding watcher],
      h.hook.Quiet := by
    simp [DoneHook.hook, quiet_sizer, quiet_watcher]
  obtain ⟨outcome, ends, runs, together⟩ := endings_follow_history fresh acts
  obtain rfl : some (.recorded "disk full") = outcome :=
    (ends _).1 (.recorded story (by simp))
  refine ⟨fresh, acts, quiet, runs watcher, ?_⟩
  rw [together _ _ rfl quiet]
  rfl

end Ferry.Transfer
