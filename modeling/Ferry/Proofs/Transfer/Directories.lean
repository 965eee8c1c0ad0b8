import Ferry.Proofs.Files.Parents
import Ferry.Transfer.World
import Mathlib

/-!
The directories above the local file of a transfer, made when it is queued. Afterwards the parent of
the file is a directory, unless something else stands in the place of a directory above the file
(`parent_is_directory_unless_blocked`). That is no failure, not even where it stands in the place of
the parent itself (`file_passes_for_parent`).
-/
namespace Ferry.Transfer.Observer

open Ferry.Files FileSystem

variable {scene after : Scene World} {hook : Hook World} {p q : Path}

/-- The hook makes the directories above the local file, and says of a failure that it is one of its
parent. -/
theorem hook_of_createDirectories (queued : createDirectories.onQueued = some hook)
    (located : scene.transfer.localFile = some p) (parent : p.parent? = some q) :
    hook scene = ((scene.world.files.createParents p).1.mapError (.directory q),
      { scene with world.files := (scene.world.files.createParents p).2 }) := by
  cases queued
  simp only [Hook.of, callAll, located, parent, Option.getD_some]

theorem createParents_of_hook (queued : createDirectories.onQueued = some hook)
    (located : scene.transfer.localFile = some p) (parent : p.parent? = some q)
    (ok : hook scene = (.ok (), after)) :
    scene.world.files.createParents p = (.ok (), after.world.files) := by
  rw [hook_of_createDirectories queued located parent] at ok
  cases made : scene.world.files.createParents p with
  | mk result files =>
    rw [made] at ok
    cases result <;> cases ok
    rfl

/-- Where the directories above a local file could be made, with the hook or without it, its parent
is a directory exactly if nothing else stands in the place of one of them. A failure is that of one
of them, and never that something is there already. -/
theorem parent_is_directory_unless_blocked (rooted : scene.world.files.DirectoryAt [])
    (located : scene.transfer.localFile = some p) (parent : p.parent? = some q)
    (named : q.bytes ≠ []) :
    (∀ files, scene.world.files.createParents p = (.ok (), files) →
      (files.isDirectory q = true ↔ ¬ files.Blocked p)) ∧
    (∀ hook after, createDirectories.onQueued = some hook → hook scene = (.ok (), after) →
      (after.world.files.isDirectory q = true ↔ ¬ after.world.files.Blocked p)) ∧
    ∀ e files, scene.world.files.createParents p = (.error e, files) →
      e ≠ .alreadyExists ∧ ∃ d ∈ directoriesAbove p, files.makeDirectory d = .error e :=
  ⟨fun _ made => isDirectory_parent_iff rooted parent named made,
    fun _ _ queued ok =>
      isDirectory_parent_iff rooted parent named (createParents_of_hook queued located parent ok),
    fun _ _ failed => error_of_createParents failed⟩

/-- A transfer to a local file, among some files. -/
def download (files : FileSystem) (file : Path) : Scene World where
  transfer := .submitted (some file) "bucket" "key" none .empty ⟨[0]⟩
  tokens := ⟨1, []⟩
  world := { World.empty with files }

/-- A link that leads nowhere. -/
def lost : FileSystem :=
  ⟨[([], newDirectory),
    ([Utf8.bytes "lost"], ⟨.link (.ofString "nowhere"), 0o777, true, noTime, noTime⟩)]⟩

/-- A link that leads nowhere is in the way, two directories above the file; the directories could
be made nevertheless. -/
theorem link_blocks_parent :
    lost.DirectoryAt [] ∧
    (download lost (.ofString "lost/sub/myfile")).transfer.localFile =
      some (.ofString "lost/sub/myfile") ∧
    Path.parent? (.ofString "lost/sub/myfile") = some (.ofString "lost/sub") ∧
    (Path.ofString "lost/sub").bytes ≠ [] ∧
    lost.createParents (.ofString "lost/sub/myfile") = (.ok (), lost) ∧
    lost.Blocked (.ofString "lost/sub/myfile") := by
  have rooted : lost.DirectoryAt [] := ⟨newDirectory, rfl, rfl⟩
  have located : (download lost (.ofString "lost/sub/myfile")).transfer.localFile =
      some (.ofString "lost/sub/myfile") := rfl
  have parent : Path.parent? (.ofString "lost/sub/myfile") = some (.ofString "lost/sub") := by cbv
  have named : (Path.ofString "lost/sub").bytes ≠ [] := by decide
  have made : lost.createParents (.ofString "lost/sub/myfile") = (.ok (), lost) := by cbv
  have missing : lost.isDirectory (.ofString "lost/sub") = false := by cbv
  refine ⟨rooted, located, parent, named, made, ?_⟩
  have exact := (parent_is_directory_unless_blocked rooted located parent named).1 lost made
  rw [missing] at exact
  simpa using exact

/-- A file. -/
def blocker : FileSystem :=
  ⟨[([], newDirectory), ([Utf8.bytes "blocker"], ⟨.file [120], 0o644, true, noTime, noTime⟩)]⟩

/-- A file that stands in the place of the parent itself is no failure, and stays. -/
theorem file_passes_for_parent :
    Path.parent? (.ofString "blocker/myfile") = some (.ofString "blocker") ∧
    blocker.createParents (.ofString "blocker/myfile") = (.ok (), blocker) ∧
    (∃ hook, createDirectories.onQueued = some hook ∧
      hook (download blocker (.ofString "blocker/myfile")) =
        (.ok (), download blocker (.ofString "blocker/myfile"))) ∧
    blocker.isDirectory (.ofString "blocker") = false := by
  have parent : Path.parent? (.ofString "blocker/myfile") = some (.ofString "blocker") := by cbv
  have made : blocker.createParents (.ofString "blocker/myfile") = (.ok (), blocker) := by cbv
  have located : (download blocker (.ofString "blocker/myfile")).transfer.localFile =
      some (.ofString "blocker/myfile") := rfl
  refine ⟨parent, made, ⟨_, rfl, (hook_of_createDirectories rfl located parent).trans ?_⟩, by cbv⟩
  rw [show (download blocker (.ofString "blocker/myfile")).world.files = blocker from rfl, made]
  rfl

end Ferry.Transfer.Observer
