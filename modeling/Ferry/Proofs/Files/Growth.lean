import Ferry.Proofs.Files.Parents
import Mathlib

/-!
What making the directories above a path adds. Whatever a call answers, all that stood there stays,
and all that is new is a directory at the end of one of those that were made
(`Built.exists_of_new`).

A call that has not failed leaves nothing to do: made again it changes nothing, and fails only where
something that is no directory stands in the place of one of the directories
(`createParents_grows`). There it can fail, after the first call has passed that over
(`second_call_fails`).
-/
namespace Ferry.Files.FileSystem

open Ferry.Files.Path

variable {fs fs' mid : FileSystem} {p q d d' : Path} {ds : List Path} {e : IoError}
  {place : Place} {n : Name} {names : List Name} {last : Option Name}

/-! ### Names in use -/

/-- Where the last name of a path is looked up, if the path ends in a name. -/
theorem lastName_eq_ok_iff (steps_eq : p.steps = names ++ [n]) (named : n ≠ []) :
    fs.lastName p = .ok (place, last) ↔
      checkPath p = .ok () ∧ fs.walk maxLinks [] (names ++ [[]]) = .ok (.entry place) ∧
        fs.checkSearch place = .ok () ∧ last = if n = here ∨ n = above then none else some n := by
  have names_eq : (p.steps.filter fun n => !n.isEmpty) =
      (names.filter fun n => !n.isEmpty) ++ [n] := by
    simp [steps_eq, named]
  simp only [lastName, names_eq, List.dropLast_concat, List.getLast?_concat, walk_named]
  constructor
  · intro found
    obtain ⟨⟨⟩, valid, found⟩ := exists_of_bind_eq_ok found
    obtain ⟨entry, walks, found⟩ := exists_of_bind_eq_ok found
    cases entry with
    | vacant holder m => cases found
    | entry holder =>
      obtain ⟨⟨⟩, search, found⟩ := exists_of_bind_eq_ok found
      cases found
      exact ⟨valid, walks, search, rfl⟩
  · rintro ⟨valid, walks, search, rfl⟩
    rw [valid, walks]
    show (fs.checkSearch place >>= fun _ => _) = _
    rw [search]
    rfl

/-- Where a path leads to a directory, the name that it ends in is in use. -/
theorem occupied_of_isDirectory (steps_eq : p.steps = names ++ [n]) (named : n ≠ [])
    (directory : fs.isDirectory p = true) : fs.Occupied p := by
  obtain ⟨valid, q, walks, there⟩ := isDirectory_iff.1 directory
  rw [steps_eq] at walks
  obtain ⟨e, stops⟩ | ⟨left, next, leads⟩ := fs.leads_or_stops maxLinks [] names
  · rw [stops _ (by simp)] at walks
    cases walks
  have arrives := leads [[]]
  rw [walk_empty_name, walk_nil] at arrives
  rw [leads, walk_cons, step, if_neg (by simpa using named)] at walks
  cases search : fs.checkSearch next with
  | error e => simp [search] at walks
  | ok _ =>
    refine ⟨next, _, (lastName_eq_ok_iff steps_eq named).2 ⟨valid, arrives, search, rfl⟩, ?_⟩
    rintro m own
    by_cases plain : n = here ∨ n = above
    · simp [plain] at own
    · obtain rfl : n = m := by simpa [plain] using own
      rw [not_or] at plain
      simp only [search, plain.1, plain.2, if_false] at walks
      by_cases long : maxName < n.length
      · simp [long] at walks
      · refine ⟨Nat.not_lt.1 long, ?_⟩
        cases used : fs.at? (next ++ [n]) with
        | none => simp [long, used] at walks
        | some old => rfl

/-- Where the last name of a path can be looked up, what the path leads through is a directory. -/
theorem isDirectory_of_lastName (up : Above d p) (steps_eq : p.steps = names ++ [n])
    (named : n ≠ []) (found : fs.lastName p = .ok (place, last)) : fs.isDirectory d = true := by
  obtain ⟨valid, walks, search, -⟩ := (lastName_eq_ok_iff steps_eq named).1 found
  obtain ⟨more, goes, longer⟩ := steps_of_above up
  obtain rfl | ⟨front, m, rfl⟩ := List.eq_nil_or_concat more
  · exact absurd rfl goes
  rw [longer, List.concat_eq_append, ← List.append_assoc] at steps_eq
  obtain ⟨rfl, -⟩ := List.append_inj' steps_eq rfl
  rw [List.append_assoc] at walks
  exact isDirectory_of_walk (checkPath_of_above up valid) (by simp) walks
    (directoryAt_of_checkSearch search)

/-! ### What is new -/

/-- All that is new is a directory to which one of the paths leads. -/
theorem Built.exists_of_new {entry : Entry} (built : fs.Built ds fs') (free : fs.at? place = none)
    (new : fs'.at? place = some entry) :
    entry = newDirectory ∧ ∃ d ∈ ds, fs'.find d = .ok (.entry place) := by
  induction built with
  | nothing =>
    rw [free] at new
    cases new
  | @made mid fs' d ds before made ih =>
    obtain ⟨added, unused, rfl, found⟩ := eq_set_of_makeDirectory made
    rw [at?_set] at new
    split at new
    · rename_i same
      subst same
      cases new
      exact ⟨rfl, d, List.mem_cons_self, found⟩
    · obtain ⟨plain, d', mem, found'⟩ := ih new
      exact ⟨plain, d', List.mem_cons_of_mem d mem, (keeps_set unused _).find_eq found'⟩
  | there before directory ih =>
    obtain ⟨plain, d', mem, found⟩ := ih new
    exact ⟨plain, d', List.mem_cons_of_mem _ mem, found⟩

/-! ### Made again -/

theorem ensureDirectory_of_isDirectory (steps_eq : d.steps = names ++ [n]) (named : n ≠ [])
    (directory : fs.isDirectory d = true) : fs.ensureDirectory d = (.ok (), fs) := by
  have taken := makeDirectory_eq_alreadyExists_iff.2
    (occupied_of_isDirectory steps_eq named directory)
  simp only [ensureDirectory, taken, directory, if_true]

theorem exists_lastName_of_makeDirectory (made : fs.makeDirectory d = .ok fs') :
    ∃ place last, fs.lastName d = .ok (place, last) := by
  have creation := fs.create_creation d newDirectory
  rw [makeDirectory] at made
  rw [made] at creation
  cases creation with
  | @made place n found short free => exact ⟨place, some n, found⟩

/-- Where something that is no directory stands in the place of one of the directories, those that
go through it cannot be made, nor anything else. -/
theorem exists_makeAll_of_occupied {longer shorter : List Path} (occupied : fs.Occupied d)
    (other : fs.isDirectory d = false) (through : ∀ d' ∈ longer, Above d d')
    (ends : ∀ d' ∈ longer, ∃ names n, d'.steps = names ++ [n] ∧ n ≠ []) :
    ∃ e, fs.makeAll (longer ++ d :: shorter) = (.error e, fs) := by
  induction longer with
  | nil =>
    refine ⟨.alreadyExists, ?_⟩
    simp only [List.nil_append, makeAll, ensureDirectory,
      makeDirectory_eq_alreadyExists_iff.2 occupied, other]
    rfl
  | cons d' longer ih =>
    obtain ⟨up, through⟩ := List.forall_mem_cons.1 through
    obtain ⟨⟨names, n, steps_eq, named⟩, ends⟩ := List.forall_mem_cons.1 ends
    have first := fs.ensureDirectory_ensured d'
    rw [List.cons_append, makeAll]
    generalize fs.ensureDirectory d' = result at first
    cases first with
    | made new =>
      obtain ⟨place, last, found⟩ := exists_lastName_of_makeDirectory new
      rw [isDirectory_of_lastName up steps_eq named found] at other
      cases other
    | there directory =>
      rw [isDirectory_of_above up directory] at other
      cases other
    | @refused e refuses =>
      obtain ⟨e', again⟩ := ih through ends
      rw [again]
      by_cases missing : e = .notFound
      · subst missing
        exact ⟨e', rfl⟩
      · refine ⟨e, ?_⟩
        split
        · rename_i same
          cases same
          exact absurd rfl missing
        · rfl

/-! ### The directories above a path -/

theorem mem_trail_of_mem_directoriesAbove (mem : d ∈ directoriesAbove p) : d ∈ p.trail := by
  rw [directoriesAbove, List.mem_reverse] at mem
  exact List.dropLast_subset _ mem

/-- The directories above a path are beginnings of its parent. -/
theorem exists_parent_of_mem (mem : d ∈ directoriesAbove p) :
    ∃ q, p.parent? = some q ∧ d.bytes <+: q.bytes := by
  cases parent : p.parent? with
  | none =>
    rw [directoriesAbove_eq] at mem
    unfold parent? at parent
    split at parent
    · rename_i backwards
      rw [backwards] at mem
      cases mem
    · cases parent
    · cases parent
  | some q =>
    refine ⟨q, rfl, ?_⟩
    obtain ⟨none_above, -⟩ | ⟨shorter, above_eq, longer⟩ := directoriesAbove_of_parent? parent
    · rw [none_above] at mem
      cases mem
    · rw [above_eq] at mem
      obtain rfl | mem := List.mem_cons.1 mem
      · exact List.prefix_rfl
      · obtain ⟨-, rest, q_eq⟩ := longer d mem
        exact ⟨_, q_eq.symm⟩

/-- There is none above a path whose parent is missing or empty. -/
theorem directoriesAbove_eq_nil (nothing : ∀ q, p.parent? = some q → q.bytes = []) :
    directoriesAbove p = [] := by
  refine List.eq_nil_iff_forall_not_mem.2 fun d mem => ?_
  obtain ⟨q, parent, front⟩ := exists_parent_of_mem mem
  rw [nothing q parent, List.prefix_nil] at front
  exact (steps_of_mem_trail (mem_trail_of_mem_directoriesAbove mem)).1 front

/-- A directory, and all that are above it. -/
def IsChain (fs : FileSystem) (d : Path) : Prop :=
  fs.isDirectory d = true ∧ ∀ d', Above d' d → fs.isDirectory d' = true

/-- What a call that makes the directories above a path may do. -/
structure Grows (fs : FileSystem) (p : Path) (call : Change) : Prop where
  /-- Whatever stood there stays as it was. -/
  keeps : fs.Keeps call.2
  /-- All that is new is a directory to which a beginning of the parent leads. These follow each
  other without a gap, and a failure is that of the next one. -/
  chain : ∃ unmade built unseen, directoriesAbove p = unmade ++ built ++ unseen ∧
    (∀ d ∈ built, call.2.IsChain d) ∧
    (∀ place entry, fs.at? place = none → call.2.at? place = some entry →
      entry = newDirectory ∧ ∃ d ∈ built, call.2.find d = .ok (.entry place) ∧
        d.bytes ≠ [] ∧ ∃ q, p.parent? = some q ∧ d.bytes <+: q.bytes) ∧
    ∀ e, call.1 = .error e → ∃ longer d, unmade = longer ++ [d] ∧ call.2.Refuses d e
  /-- There is nothing to make above a path without a parent, or with an empty one. -/
  nothing : (∀ q, p.parent? = some q → q.bytes = []) → call = (.ok (), fs)
  /-- After success a second call changes nothing. It succeeds as well, unless something that is no
  directory stands in the place of one of them. -/
  again : call.1 = .ok () → ∃ answer, call.2.createParents p = (answer, call.2) ∧
    (¬ call.2.Blocked p → answer = .ok ())

theorem createParents_state : (fs.createParents p).2 = (fs.makeAll (directoriesAbove p)).2 := by
  unfold createParents
  split
  · rename_i failed
    rw [failed]
  · rfl

theorem createParents_eq_error (failed : (fs.createParents p).1 = .error e) :
    (fs.makeAll (directoriesAbove p)).1 = .error e := by
  unfold createParents at failed
  split at failed
  · cases failed
  · exact failed

theorem createParents_of_makeAll {answer : Except IoError Unit}
    (made : fs.makeAll (directoriesAbove p) = (answer, fs')) :
    ∃ answer', fs.createParents p = (answer', fs') ∧ (answer = .ok () → answer' = .ok ()) := by
  unfold createParents
  rw [made]
  split
  · rename_i same
    cases same
    exact ⟨_, rfl, fun _ => rfl⟩
  · exact ⟨_, rfl, id⟩

/-- After a call that has not failed, another one changes nothing. -/
theorem createParents_again (made : fs.createParents p = (.ok (), fs')) :
    ∃ answer, fs'.createParents p = (answer, fs') ∧ (¬ fs'.Blocked p → answer = .ok ()) := by
  unfold createParents at made
  split at made
  · -- something in the way has been passed over, and is in the way again
    rename_i failed
    cases made
    obtain ⟨unmade, built, unseen, reached⟩ := fs.exists_reached (directoriesAbove p)
    rw [failed] at reached
    obtain ⟨longer, d, rfl, refuses⟩ := reached.refuses _ rfl
    have occupied := makeDirectory_eq_alreadyExists_iff.1 refuses.error
    have other := refuses.other rfl
    have split : directoriesAbove p = longer ++ d :: (built ++ unseen) := by
      simpa using reached.split
    have mem : d ∈ directoriesAbove p := by simp [split]
    have through : ∀ d' ∈ longer, Above d d' := fun d' among =>
      (List.pairwise_append.1 (split ▸ directoriesAbove_pairwise p)).2.2 d' among d
        List.mem_cons_self
    have ends : ∀ d' ∈ longer, ∃ names n, d'.steps = names ++ [n] ∧ n ≠ [] := fun d' among =>
      (steps_of_mem_trail (mem_trail_of_mem_directoriesAbove
        (split ▸ List.mem_append_left _ among))).2
    obtain ⟨e, again⟩ := exists_makeAll_of_occupied occupied other through ends
    obtain ⟨answer, second, -⟩ := createParents_of_makeAll (split ▸ again)
    exact ⟨answer, second, fun free => absurd ⟨d, mem, occupied, other⟩ free⟩
  · suffices again : fs'.makeAll (directoriesAbove p) = (.ok (), fs') by
      obtain ⟨answer, second, ok⟩ := createParents_of_makeAll again
      exact ⟨answer, second, fun _ => ok rfl⟩
    cases above_eq : directoriesAbove p with
    | nil => rfl
    | cons d shorter =>
      rw [above_eq] at made
      have mem : d ∈ directoriesAbove p := by simp [above_eq]
      obtain ⟨-, names, n, steps_eq, named⟩ :=
        steps_of_mem_trail (mem_trail_of_mem_directoriesAbove mem)
      rw [makeAll, ensureDirectory_of_isDirectory steps_eq named (isDirectory_of_makeAll made)]

/-- Whatever it answers, a call that makes the directories above a path keeps all that was there
and adds only those directories, each with all that are above it. -/
theorem createParents_grows (fs : FileSystem) (p : Path) : fs.Grows p (fs.createParents p) := by
  obtain ⟨unmade, built, unseen, reached⟩ := fs.exists_reached (directoriesAbove p)
  have builds := reached.builds
  rw [← createParents_state] at builds
  refine ⟨builds.keeps, ⟨unmade, built, unseen, reached.split, fun d mem => ?_, ?_, ?_⟩, ?_, ?_⟩
  · have directory := builds.isDirectory d mem
    exact ⟨directory, fun d' up => isDirectory_of_above up directory⟩
  · intro place entry free new
    obtain ⟨plain, d, mem, found⟩ := builds.exists_of_new free new
    have above : d ∈ directoriesAbove p := by simp [reached.split, mem]
    exact ⟨plain, d, mem, found, (steps_of_mem_trail (mem_trail_of_mem_directoriesAbove above)).1,
      exists_parent_of_mem above⟩
  · intro e failed
    rw [createParents_state]
    exact reached.refuses e (createParents_eq_error failed)
  · intro nothing
    rw [createParents, directoriesAbove_eq_nil nothing]
    rfl
  · exact fun ok => createParents_again (Prod.ext ok rfl)

/-- What was made before a failure stays. Here it is a directory that the path leaves again. -/
example :
    let shut := empty.set [Utf8.bytes "shut"] ⟨.directory, 0o555, true, noTime, noTime⟩
    shut.createParents (.ofString "a/../shut/x/myfile") =
      (.error .permissionDenied, shut.set [Utf8.bytes "a"] newDirectory) := by
  cbv

/-- A file. -/
def obstacle : FileSystem :=
  ⟨[([], newDirectory), ([Utf8.bytes "l"], ⟨.file [120], 0o644, true, noTime, noTime⟩)]⟩

/-- A call makes a directory that the path leaves again, comes to the file and passes it over. A
second call no longer lacks anything before the file, and fails on the directory below it. -/
theorem second_call_fails :
    let p := Path.ofString "a/../l/x/myfile"
    let after := obstacle.set [Utf8.bytes "a"] newDirectory
    obstacle.createParents p = (.ok (), after) ∧
      after.createParents p = (.error .notADirectory, after) := by
  constructor <;> cbv

end Ferry.Files.FileSystem
