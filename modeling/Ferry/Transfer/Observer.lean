import Ferry.Files.Error
import Ferry.Transfer.Scene

/-!
Observers of transfers. Each may have a hook for the moment when a transfer is queued and one for
the moment when it is done. A transfer is announced at most once for each of the two, by whichever
set of observers comes first. It is marked before the first hook is called, so a hook that announces
it again has no effect.
-/
namespace Ferry.Transfer

open Ferry.Files

/-- Why a hook failed. -/
inductive HookError
  | directory (path : Path) (source : IoError)
  | hook (reason : String)
deriving DecidableEq, Repr

def HookError.message : HookError → String
  | .directory path source => "could not create directory " ++ path.shown ++ ": " ++ source.message
  | .hook reason => "subscriber hook failed: " ++ reason

variable {ω : Type}

/-- A hook: how it ends and what it leaves of the scene that it finds, and the calls that it makes
on the way. It changes the transfer by these only. -/
structure Hook (ω : Type) where
  run : Scene ω → Except HookError Unit × Scene ω
  calls : Scene ω → List Call
  acts : ∀ scene, Through (calls scene) scene (run scene).2

instance : CoeFun (Hook ω) fun _ => Scene ω → Except HookError Unit × Scene ω := ⟨Hook.run⟩

namespace Hook

/-- The hook that ends so, makes these calls and leaves the world so. -/
def of (f : Scene ω → Except HookError Unit × List Call × ω) : Hook ω where
  run scene := ((f scene).1, { callAll (f scene).2.1 scene with world := (f scene).2.2 })
  calls scene := (f scene).2.1
  acts scene := through_callAll _ scene

/-- A hook that does nothing. -/
def nothing : Hook ω := of fun scene => (.ok (), [], scene.world)

/-- The second hook after the first, unless that one fails. -/
def andThen (first second : Hook ω) : Hook ω where
  run scene :=
    match first scene with
    | (.ok _, scene) => second scene
    | failed => failed
  calls scene :=
    match first scene with
    | (.ok _, next) => first.calls scene ++ second.calls next
    | _ => first.calls scene
  acts scene := by
    have acts := first.acts scene
    rcases ended : first.run scene with ⟨e | _, next⟩
    · rw [ended] at acts
      exact acts
    · rw [ended] at acts
      exact acts.trans (second.acts next)

/-- The second hook after the first, be it that one fails; the first failure is the answer. -/
def andAlso (first second : Hook ω) : Hook ω where
  run scene :=
    let (result, scene) := first scene
    let (later, scene) := second scene
    (match result with
      | .ok _ => later
      | .error e => .error e, scene)
  calls scene := first.calls scene ++ second.calls (first scene).2
  acts scene := (first.acts scene).trans (second.acts (first scene).2)

end Hook

/-- Hooks for the two ways in which a transfer can end. -/
structure Endings (ω : Type) where
  onSuccess : Hook ω
  onFailure : Failure → Hook ω

namespace Endings

/-- Nothing to do, however the transfer ends. -/
def nothing : Endings ω := ⟨.nothing, fun _ => .nothing⟩

/-- The hook that runs one of two, as the transfer has failed or not. -/
def hook (e : Endings ω) : Hook ω where
  run scene :=
    match scene.failure? with
    | some failure => e.onFailure failure scene
    | none => e.onSuccess scene
  calls scene :=
    match scene.failure? with
    | some failure => (e.onFailure failure).calls scene
    | none => e.onSuccess.calls scene
  acts scene := by
    cases scene.failure? with
    | some failure => exact (e.onFailure failure).acts scene
    | none => exact e.onSuccess.acts scene

end Endings

/-- An observer, by the hooks it has. -/
structure Observer (ω : Type) where
  onQueued : Option (Hook ω)
  onDone : Option (Hook ω)

/-- Runs hooks one after another, up to the first that fails. -/
def runUntilFailure : List (Hook ω) → Hook ω
  | [] => .nothing
  | hook :: hooks => hook.andThen (runUntilFailure hooks)

/-- Runs all hooks, one after another; the first failure is the answer. -/
def runAll : List (Hook ω) → Hook ω
  | [] => .nothing
  | hook :: hooks => hook.andAlso (runAll hooks)

/-- Announces that the transfer is queued, unless it is called off or was announced before. -/
def notifyQueued (observers : List (Observer ω)) : Hook ω where
  run scene :=
    if scene.isCancelled || scene.transfer.queued then (.ok (), scene)
    else runUntilFailure (observers.filterMap (·.onQueued)) scene.markQueued
  calls scene :=
    .announceQueued ::
      if scene.isCancelled || scene.transfer.queued then []
      else (runUntilFailure (observers.filterMap (·.onQueued))).calls scene.markQueued
  acts scene := by
    cases off : scene.isCancelled with
    | true => exact through_announceQueued_of_cancelled off
    | false =>
      have marked := through_announceQueued off
      cases queued : scene.transfer.queued with
      | true =>
        rw [scene.markQueued_eq_self queued] at marked
        exact marked
      | false => exact marked.trans (Hook.acts _ scene.markQueued)

/-- Announces that the transfer is done, unless it was announced before. -/
def notifyDone (observers : List (Observer ω)) : Hook ω where
  run scene :=
    if scene.transfer.done then (.ok (), scene)
    else runAll (observers.filterMap (·.onDone)) scene.markDone
  calls scene :=
    .announceDone ::
      if scene.transfer.done then []
      else (runAll (observers.filterMap (·.onDone))).calls scene.markDone
  acts scene := by
    have marked := through_announceDone scene
    cases done : scene.transfer.done with
    | true =>
      rw [scene.markDone_eq_self done] at marked
      exact marked
    | false => exact marked.trans (Hook.acts _ scene.markDone)

end Ferry.Transfer
