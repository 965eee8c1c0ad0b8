import Ferry.Proofs.Files.Times
import Ferry.Proofs.Transfer.Ending
import Ferry.Transfer.World

/-!
The times of a local file, restored when its transfer is done. `Restoration` says what the observer
for that leaves: a transfer that failed is left alone, else the times are set, else one warning says
why they were not (`lastModified_restores`). It never fails itself, be there someone to read the
warning or not.

Of all announcements that a transfer is done the first alone has the observers called, each of them
once (`run_done`). Hence the account of the warnings: as many as there are such observers at most
(`Restorers.sends`, by induction on the observers).
-/
namespace Ferry.Transfer

open Ferry.Files Ferry.Time

variable {ω : Type}

/-- What the done hooks of some observers leave, called one after another. -/
def leftBy (observers : List (Observer ω)) (scene : Scene ω) : Scene ω :=
  (callEach (observers.filterMap (·.onDone)) scene).2

theorem callEach_append (hooks more : List (Hook ω)) (scene : Scene ω) :
    (callEach (hooks ++ more) scene).2 = (callEach more (callEach hooks scene).2).2 := by
  induction hooks generalizing scene with
  | nil => rfl
  | cons hook hooks ih => exact ih (hook scene).2

theorem leftBy_append (observers more : List (Observer ω)) (scene : Scene ω) :
    leftBy (observers ++ more) scene = leftBy more (leftBy observers scene) := by
  rw [leftBy, List.filterMap_append, callEach_append]
  rfl

theorem leftBy_cons (hook : Hook ω) (observers : List (Observer ω)) (scene : Scene ω) :
    leftBy (.whenDone hook :: observers) scene = leftBy observers (hook scene).2 := rfl

namespace Scene

variable {scene : Scene ω}

/-- A transfer that was announced as done is left as it is by all further such announcements. -/
theorem run_done_eq_self (done : scene.transfer.done = true)
    (sets : List (List (Observer ω))) : scene.run (sets.map .done) = scene := by
  induction sets with
  | nil => rfl
  | cons set sets ih =>
    rw [List.map_cons, run, after, notifyDone_eq_self done]
    exact ih

/-- The first announcement has all its observers called, and is the only one that has. -/
theorem run_done (fresh : scene.transfer.done = false) (set : List (Observer ω))
    (sets : List (List (Observer ω))) :
    scene.run ((set :: sets).map .done) = leftBy set scene.markDone := by
  obtain ⟨answer, left, ⟨answers, called, -⟩, notified⟩ := notifyDone_of_fresh fresh set
  obtain ⟨calls, acts⟩ := exists_through_callEach (set.filterMap (·.onDone)) scene.markDone
  have marked : (leftBy set scene.markDone).transfer.done = true := acts.done_iff.2 (.inl rfl)
  have left_eq : leftBy set scene.markDone = left := by rw [leftBy, called]
  rw [List.map_cons, run, after, notified, ← left_eq]
  exact run_done_eq_self marked sets

end Scene

namespace Channel

variable {before mid after : Channel} {sent more : List Outcome}

/-- What was sent has come to a channel: it waits to be received or, where the receiver has gone, is
counted as lost. -/
structure Got (before : Channel) (sent : List Outcome) (after : Channel) : Prop where
  isOpen_eq : after.isOpen = before.isOpen
  waiting_eq : after.waiting = before.waiting ++ if before.isOpen then sent else []
  lost_eq : after.lost = before.lost ++ if before.isOpen then [] else sent

theorem got_nil (c : Channel) : c.Got [] c := by
  constructor <;> simp

theorem got_send (c : Channel) (o : Outcome) : c.Got [o] (c.send o) := by
  unfold send
  cases opened : c.isOpen <;> constructor <;> simp [opened]

theorem Got.trans (first : before.Got sent mid) (second : mid.Got more after) :
    before.Got (sent ++ more) after where
  isOpen_eq := second.isOpen_eq.trans first.isOpen_eq
  waiting_eq := by
    rw [second.waiting_eq, first.waiting_eq, first.isOpen_eq]
    split <;> simp
  lost_eq := by
    rw [second.lost_eq, first.lost_eq, first.isOpen_eq]
    split <;> simp

/-- How many reports have come to a channel and were not received. -/
def count (c : Channel) : Nat := (c.waiting ++ c.lost).length

theorem Got.count_eq (got : before.Got sent after) : after.count = before.count + sent.length := by
  simp only [count, got.waiting_eq, got.lost_eq, List.length_append]
  split <;> simp only [List.length_nil] <;> omega

end Channel

namespace Observer

/-- Why the times of a local file cannot be restored, in words. -/
inductive Hindrance (files : FileSystem) (file : Option Path) (time : Option Instant) :
    String → Prop
  | noFile (missing : file = none) : Hindrance files file time "no local file to update"
  | noTime {path : Path} (located : file = some path) (missing : time = none) :
      Hindrance files file time "no last modified time was provided"
  | refused {path : Path} {instant : Instant} {error : TimesError} (located : file = some path)
      (given : time = some instant) (failed : files.setTimes path instant.secs = .error error) :
      Hindrance files file time error.message

/-- What a warning calls a transfer: its local path, or else its key. -/
def shownName (t : Transfer) : String :=
  match t.localFile with
  | some path => path.shown
  | none => t.key

/-- The warning that the times of a transfer could not be restored, for this reason. -/
structure IsWarning (t : Transfer) (reason : String) (o : Outcome) : Prop where
  isWarning : o.isWarning = true
  isError : o.isError = false
  message_eq : o.message = "warning: Successfully downloaded " ++ shownName t
    ++ " but was unable to update the last modified time. " ++ reason

/-- What is left of a scene where the times of a file were to be restored. -/
inductive Restoration (time : Option Instant) (scene : Scene World) : Scene World → Prop
  /-- The transfer has failed: nothing happens. -/
  | failed (failed : scene.transfer.recorded ≠ none ∨ scene.isCancelled = true) :
      Restoration time scene scene
  /-- The times of the file are set, and nothing else happens. -/
  | restored {path : Path} {instant : Instant} {place : Place} {e : Entry} {files : FileSystem}
      (clean : scene.transfer.recorded = none) (live : scene.isCancelled = false)
      (located : scene.transfer.localFile = some path) (given : time = some instant)
      (set : scene.world.files.setTimes path instant.secs = .ok files)
      (found : scene.world.files.resolve path = .ok (place, e))
      (changed : scene.world.files.TimesSet place e instant.secs files) :
      Restoration time scene { scene with world.files := files }
  /-- There is a reason not to, and it is sent; nothing else happens. -/
  | warned {reason : String} {o : Outcome} {reports : Channel}
      (clean : scene.transfer.recorded = none) (live : scene.isCancelled = false)
      (hindrance : Hindrance scene.world.files scene.transfer.localFile time reason)
      (warning : IsWarning scene.transfer reason o) (sent : scene.world.reports.Got [o] reports) :
      Restoration time scene { scene with world.reports := reports }

theorem isWarning_timeWarning (t : Transfer) (reason : String) :
    IsWarning t reason (timeWarning (shownName t) reason) where
  isWarning := rfl
  isError := rfl
  message_eq := by
    have opening : "warning: " ++ "" ++ "Successfully downloaded " =
        "warning: Successfully downloaded " := by decide
    have shape : ∀ a b c d f : String, a ++ (b ++ c ++ d ++ f) = a ++ b ++ c ++ d ++ f := by
      intro a b c d f
      simp only [String.append_assoc]
    rw [← opening]
    exact shape ..

/-- Restoring times either sets them or gives the reason why not. -/
theorem restoreTime_spec (files : FileSystem) (file : Option Path) (time : Option Instant) :
    (∃ path instant files', file = some path ∧ time = some instant ∧
      files.setTimes path instant.secs = .ok files' ∧
        restoreTime files file time = .ok files') ∨
    ∃ reason, Hindrance files file time reason ∧ restoreTime files file time = .error reason := by
  cases located : file with
  | none => exact .inr ⟨_, .noFile rfl, rfl⟩
  | some path =>
    cases given : time with
    | none => exact .inr ⟨_, .noTime rfl rfl, rfl⟩
    | some instant =>
      cases set : files.setTimes path instant.secs with
      | ok files' =>
        exact .inl ⟨path, instant, files', rfl, rfl, set, by rw [restoreTime, set]; rfl⟩
      | error error =>
        exact .inr ⟨_, .refused rfl rfl set, by rw [restoreTime, set]; rfl⟩

/-- The observer never fails, and what it leaves is a restoration, whatever it finds. -/
theorem lastModified_restores (time : Option Instant) :
    ∃ hook : Hook World, lastModified time = whenDone hook ∧
      ∀ scene, ∃ left, hook scene = (.ok (), left) ∧ Restoration time scene left := by
  refine ⟨_, rfl, fun scene => ?_⟩
  rw [Endings.hook_eq]
  cases recorded : scene.transfer.recorded with
  | some reason =>
    rw [failure?_of_recorded recorded]
    exact ⟨scene, rfl, .failed (.inl (by simp [recorded]))⟩
  | none =>
    rw [failure?_of_clean recorded]
    cases off : scene.isCancelled with
    | true => exact ⟨scene, rfl, .failed (.inr off)⟩
    | false =>
      rw [if_neg Bool.false_ne_true, Endings.handler]
      obtain ⟨path, instant, files, located, given, set, restored⟩ | ⟨reason, hindrance, refused⟩ :=
        restoreTime_spec scene.world.files scene.transfer.localFile time
      · obtain ⟨place, e, found, changed⟩ := FileSystem.timesSet_of_setTimes set
        exact ⟨_, by simp only [Hook.of, restored, callAll],
          .restored recorded off located given set found changed⟩
      · exact ⟨_, by simp only [Hook.of, refused]; rfl,
          .warned recorded off hindrance (isWarning_timeWarning scene.transfer reason)
            (Channel.got_send _ _)⟩

/-- The hooks of an observer leave the reports to others while the transfer counts as done. -/
def LeavesReports (o : Observer World) : Prop :=
  ∀ hook, o.onDone = some hook → ∀ scene, scene.transfer.done = true →
    (hook scene).2.world.reports = scene.world.reports

/-- Among these observers `n` are there to restore times, and the others leave the reports alone. -/
inductive Restorers : List (Observer World) → Nat → Prop
  | nil : Restorers [] 0
  | restorer {observers : List (Observer World)} {n : Nat} (time : Option Instant)
      (others : Restorers observers n) : Restorers (lastModified time :: observers) (n + 1)
  | other {o : Observer World} {observers : List (Observer World)} {n : Nat}
      (quiet : o.LeavesReports) (others : Restorers observers n) : Restorers (o :: observers) n

/-- At most `n` reports come to a channel, all of them warnings. -/
def Warned (n : Nat) (before after : Channel) : Prop :=
  ∃ warnings : List Outcome, warnings.length ≤ n ∧
    (∀ o ∈ warnings, o.isWarning = true ∧ o.isError = false) ∧ before.Got warnings after

theorem Warned.none (n : Nat) (c : Channel) : Warned n c c :=
  ⟨[], Nat.zero_le n, nofun, c.got_nil⟩

theorem Warned.trans {m n : Nat} {before mid after : Channel} (first : Warned m before mid)
    (second : Warned n mid after) : Warned (m + n) before after := by
  obtain ⟨warnings, few, all, got⟩ := first
  obtain ⟨more, few', all', got'⟩ := second
  refine ⟨warnings ++ more, ?_, ?_, got.trans got'⟩
  · rw [List.length_append]
    omega
  · intro o mem
    exact (List.mem_append.1 mem).elim (all o) (all' o)

theorem Warned.count_le {n : Nat} {before after : Channel} (warned : Warned n before after) :
    after.count ≤ before.count + n := by
  obtain ⟨warnings, few, -, got⟩ := warned
  rw [got.count_eq]
  omega

theorem Restoration.warned_reports {time : Option Instant} {scene left : Scene World}
    (restoration : Restoration time scene left) :
    Warned 1 scene.world.reports left.world.reports := by
  cases restoration with
  | failed => exact .none 1 _
  | restored => exact .none 1 _
  | @warned _ o _ _ _ _ warning sent =>
    refine ⟨[o], Nat.le_refl 1, ?_, sent⟩
    intro o mem
    rw [List.mem_singleton.1 mem]
    exact ⟨warning.isWarning, warning.isError⟩

theorem Restorers.sends {observers : List (Observer World)} {n : Nat}
    (restorers : Restorers observers n) {scene : Scene World}
    (marked : scene.transfer.done = true) :
    Warned n scene.world.reports (leftBy observers scene).world.reports := by
  induction restorers generalizing scene with
  | nil => exact .none 0 _
  | restorer time others ih =>
    obtain ⟨hook, same, restores⟩ := lastModified_restores time
    obtain ⟨left, called, restoration⟩ := restores scene
    have still : left.transfer.done = true := by
      have acts := hook.acts scene
      rw [called] at acts
      exact acts.done_iff.2 (.inl marked)
    rw [same, leftBy_cons, called, Nat.add_comm]
    exact restoration.warned_reports.trans (ih still)
  | @other o observers n quiet others ih =>
    cases hooked : o.onDone with
    | none =>
      rw [leftBy, List.filterMap_cons_none hooked]
      exact ih marked
    | some hook =>
      have kept := quiet hook hooked scene marked
      rw [leftBy, List.filterMap_cons_some hooked, ← kept]
      exact ih ((hook.acts scene).done_iff.2 (.inl marked))

/-- When a transfer is done its times are restored, or nothing is done because it has failed, or one
warning says why they could not be. No failure comes of it. However often and to whichever observers
the end is announced, each observer for the times is called at most once, between the observers
before and after it, so there are no more warnings than such observers, be they read or lost. -/
theorem times_restored_or_warned :
    (∀ time, ∃ hook : Hook World, lastModified time = whenDone hook ∧
      ∀ scene, ∃ left, hook scene = (.ok (), left) ∧ Restoration time scene left) ∧
    (∀ (scene : Scene World) (sets : List (List (Observer World))), scene.transfer.done = true →
      scene.run (sets.map .done) = scene) ∧
    ∀ (scene : Scene World) (set : List (Observer World)) (sets : List (List (Observer World))),
      scene.transfer.done = false →
      (∀ earlier time later, set = earlier ++ lastModified time :: later →
        ∃ left, Restoration time (leftBy earlier scene.markDone) left ∧
          scene.run ((set :: sets).map .done) = leftBy later left) ∧
      ∀ n, Restorers set n →
        Warned n scene.world.reports (scene.run ((set :: sets).map .done)).world.reports ∧
          (scene.run ((set :: sets).map .done)).world.reports.count ≤
            scene.world.reports.count + n := by
  refine ⟨lastModified_restores, fun scene sets done => Scene.run_done_eq_self done sets, ?_⟩
  intro scene set sets fresh
  rw [Scene.run_done fresh]
  refine ⟨?_, fun n restorers => ?_⟩
  · rintro earlier time later rfl
    obtain ⟨hook, same, restores⟩ := lastModified_restores time
    obtain ⟨left, called, restoration⟩ := restores (leftBy earlier scene.markDone)
    refine ⟨left, restoration, ?_⟩
    rw [leftBy_append, same, leftBy_cons, called]
  · have marked : scene.markDone.transfer.done = true := rfl
    have warned : Warned n scene.world.reports (leftBy set scene.markDone).world.reports :=
      restorers.sends marked
    exact ⟨warned, warned.count_le⟩

theorem leavesReports_noteEndings (name : String) (fails : Bool) :
    (noteEndings name fails).LeavesReports := by
  rintro hook ⟨⟩ scene -
  rw [Endings.hook_eq]
  cases scene.failure? <;> rfl

/-- A download without a local file, of which nobody receives the reports. -/
def stray : Scene World where
  transfer := .submitted none "photos" "sky" none .empty ⟨[0]⟩
  tokens := ⟨1, []⟩
  world := { World.empty with reports := Channel.empty.close }

/-- Those who hear of its end: a note taker who fails, and one who is there for the times. -/
def attendants : List (Observer World) := [noteEndings "clerk" true, lastModified none]

/-- Its end is announced twice: one warning is lost, and it is the only one. -/
theorem one_warning_is_lost :
    stray.transfer.done = false ∧
      attendants = [noteEndings "clerk" true] ++ lastModified none :: [] ∧
      Restorers attendants 1 ∧
      (∃ left, Restoration none (leftBy [noteEndings "clerk" true] stray.markDone) left ∧
        stray.run ([attendants, attendants].map .done) = left) ∧
      Warned 1 stray.world.reports (stray.run ([attendants, attendants].map .done)).world.reports ∧
      (stray.run ([attendants, attendants].map .done)).world.reports.count = 1 := by
  have fresh : stray.transfer.done = false := rfl
  have restorers : Restorers attendants 1 :=
    .other (leavesReports_noteEndings "clerk" true) (.restorer none .nil)
  obtain ⟨called, sends⟩ := times_restored_or_warned.2.2 stray attendants [attendants] fresh
  exact ⟨fresh, rfl, restorers, called [noteEndings "clerk" true] none [] rfl,
    (sends 1 restorers).1, by decide⟩

end Observer
end Ferry.Transfer
