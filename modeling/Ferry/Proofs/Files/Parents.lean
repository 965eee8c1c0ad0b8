import Ferry.Proofs.Bind
import Ferry.Proofs.Files.Trail
import Ferry.Proofs.Files.Walk

/-!
Making the directories above a path. What making one directory comes to is said first: where it was
made, the path leads to it (`isDirectory_of_makeDirectory`), and it is refused as already there
exactly where the name is in use, whatever stands under it (`makeDirectory_eq_alreadyExists_iff`).
A call for several makes some of them, one after another from the shortest on, and comes to its end
or to one that cannot be made (`exists_reached`).

From this follows what the parent is when all could be made: a directory, unless something else
stands in the place of one of those above the path (`isDirectory_parent_iff`).
-/
namespace Ferry.Files.FileSystem

open Ferry.Text Ferry.Files.Path

variable {fs fs' mid : FileSystem} {place : Place} {n : Name} {names : List Name} {p q d : Path}
  {ds : List Path} {e : IoError}

/-- The last name of a path, those before it, and the place where it is looked up. -/
structure LastName (fs : FileSystem) (p : Path) (names : List Name) (place : Place) (n : Name) :
    Prop where
  valid : checkPath p = .ok ()
  names_eq : (p.steps.filter fun n => !n.isEmpty) = names ++ [n]
  walks : fs.walk maxLinks [] (names ++ [[]]) = .ok (.entry place)
  search : fs.checkSearch place = .ok ()
  stays : n ≠ here
  up : n ≠ above

theorem LastName.named (last : fs.LastName p names place n) : n ≠ [] := by
  have : n ∈ p.steps.filter fun n => !n.isEmpty := by simp [last.names_eq]
  simpa using (List.mem_filter.1 this).2

theorem lastName_of_eq_ok (found : fs.lastName p = .ok (place, some n)) :
    ∃ names, fs.LastName p names place n := by
  obtain ⟨⟨⟩, valid, found⟩ := exists_of_bind_eq_ok found
  obtain ⟨entry, walks, found⟩ := exists_of_bind_eq_ok found
  cases entry with
  | vacant place' n' => cases found
  | entry place' =>
    cases last : (p.steps.filter fun n => !n.isEmpty).getLast? with
    | none =>
      rw [last] at found
      cases found
    | some n' =>
      rw [last] at found
      obtain ⟨⟨⟩, search, found⟩ := exists_of_bind_eq_ok found
      by_cases plain : n' = here ∨ n' = above
      · simp [plain] at found
      · obtain ⟨rfl, rfl⟩ : place' = place ∧ n' = n := by simpa [plain] using found
        obtain ⟨names, named⟩ := List.getLast?_eq_some_iff.1 last
        rw [named, List.dropLast_concat] at walks
        rw [not_or] at plain
        exact ⟨names, valid, named, walks, search, plain.1, plain.2⟩

/-- Whether the name that a path ends in is in use; the directory itself and the one above always
are. -/
def Occupied (fs : FileSystem) (p : Path) : Prop :=
  ∃ place last, fs.lastName p = .ok (place, last) ∧
    ∀ n, last = some n → n.length ≤ maxName ∧ (fs.at? (place ++ [n])).isSome

theorem occupied_iff {last : Option Name} (found : fs.lastName p = .ok (place, last)) :
    fs.Occupied p ↔ ∀ n, last = some n → n.length ≤ maxName ∧ (fs.at? (place ++ [n])).isSome := by
  constructor
  · rintro ⟨place', last', found', used⟩
    rw [found] at found'
    cases found'
    exact used
  · exact fun used => ⟨place, last, found, used⟩

theorem checkPath_ne_alreadyExists : checkPath p ≠ .error .alreadyExists := by
  unfold checkPath
  split
  · simp
  · split
    · simp
    · split <;> simp

theorem lastName_ne_alreadyExists : fs.lastName p ≠ .error .alreadyExists := by
  intro error
  obtain error | ⟨_, _, error⟩ := of_bind_eq_error error
  · exact checkPath_ne_alreadyExists error
  obtain error | ⟨entry, _, error⟩ := of_bind_eq_error error
  · exact walk_ne_alreadyExists error
  cases entry with
  | vacant place n => cases error
  | entry place =>
    cases last : (p.steps.filter fun n => !n.isEmpty).getLast? with
    | none =>
      rw [last] at error
      cases error
    | some n =>
      rw [last] at error
      obtain error | ⟨_, _, error⟩ := of_bind_eq_error error
      · exact checkSearch_ne_alreadyExists error
      · cases error

/-- All that can come of putting a new entry where a path says. -/
inductive Creation (fs : FileSystem) (p : Path) (new : Entry) : Except IoError FileSystem → Prop
  | taken (occupied : fs.Occupied p) : Creation fs p new (.error .alreadyExists)
  | fails (e : IoError) (other : e ≠ .alreadyExists) (free : ¬ fs.Occupied p) :
      Creation fs p new (.error e)
  | made {place : Place} {n : Name} (found : fs.lastName p = .ok (place, some n))
      (short : n.length ≤ maxName) (unused : fs.at? (place ++ [n]) = none) :
      Creation fs p new (.ok (fs.set (place ++ [n]) new))

theorem create_creation (fs : FileSystem) (p : Path) (new : Entry) :
    fs.Creation p new (fs.create p new) := by
  unfold create
  cases found : fs.lastName p with
  | error e =>
    refine .fails e (fun same => lastName_ne_alreadyExists (same ▸ found)) ?_
    rintro ⟨place, last, ok, -⟩
    rw [found] at ok
    cases ok
  | ok r =>
    obtain ⟨place, last⟩ := r
    cases last with
    | none => exact .taken ((occupied_iff found).2 nofun)
    | some n =>
      have occupied_iff : fs.Occupied p ↔
          n.length ≤ maxName ∧ (fs.at? (place ++ [n])).isSome := by
        simp [occupied_iff found]
      change fs.Creation p new (if maxName < n.length then _ else _)
      by_cases long : maxName < n.length
      · rw [if_pos long]
        exact .fails _ nofun fun occupied => absurd long (Nat.not_lt.2 (occupied_iff.1 occupied).1)
      rw [if_neg long]
      cases there : fs.at? (place ++ [n]) with
      | some old => exact .taken (occupied_iff.2 ⟨Nat.not_lt.1 long, by rw [there]; rfl⟩)
      | none =>
        -- the name is free, and what keeps it so is something else
        have free : ¬ fs.Occupied p := fun occupied => by
          simpa [there] using (occupied_iff.1 occupied).2
        cases holder : fs.at? place with
        | none => exact .fails _ nofun free
        | some directory =>
          change fs.Creation p new (if directory.isWritable then _ else _)
          split
          · exact .made found (Nat.not_lt.1 long) there
          · exact .fails _ nofun free

theorem makeDirectory_eq_alreadyExists_iff :
    fs.makeDirectory p = .error .alreadyExists ↔ fs.Occupied p := by
  have creation := fs.create_creation p newDirectory
  rw [makeDirectory]
  generalize fs.create p newDirectory = result at creation
  cases creation with
  | taken occupied => exact ⟨fun _ => occupied, fun _ => rfl⟩
  | fails e other free => simp [other, free]
  | made found short unused => simp [occupied_iff found, unused]

theorem find_eq_ok_iff {found : Found} : fs.find p = .ok found ↔
    checkPath p = .ok () ∧ fs.walk maxLinks [] p.steps = .ok found := by
  unfold find
  cases checkPath p with
  | error e => exact iff_of_false nofun fun both => nomatch both.1
  | ok _ => exact ⟨fun walks => ⟨rfl, walks⟩, And.right⟩

/-- A directory that has been made is all that is new, and the path leads to it. -/
theorem eq_set_of_makeDirectory (made : fs.makeDirectory p = .ok fs') :
    ∃ place, fs.at? place = none ∧ fs' = fs.set place newDirectory ∧
      fs'.find p = .ok (.entry place) := by
  have creation := fs.create_creation p newDirectory
  rw [makeDirectory] at made
  rw [made] at creation
  cases creation with
  | @made place n found short free =>
    obtain ⟨names, last⟩ := lastName_of_eq_ok found
    have walks := walk_of_keeps (keeps_set free newDirectory) last.walks
    have search := (keeps_set free newDirectory).checkSearch_eq last.search
    have there : (fs.set (place ++ [n]) newDirectory).DirectoryAt (place ++ [n]) :=
      ⟨newDirectory, by rw [at?_set, if_pos rfl], rfl⟩
    refine ⟨place ++ [n], free, rfl, find_eq_ok_iff.2 ⟨last.valid, walk_of_walk_named ?_⟩⟩
    -- the way to the directory is as before, and the last step now leads to the new entry
    obtain ⟨left, leads⟩ := walk_append walks
    rw [last.names_eq, List.append_assoc, leads, List.singleton_append, walk_cons,
      step_eq_leads search last.named last.stays last.up short there]
    exact walk_empty_name.trans walk_nil

theorem Keeps.find_eq (keeps : fs.Keeps fs') (found : fs.find d = .ok (.entry place)) :
    fs'.find d = .ok (.entry place) := by
  obtain ⟨valid, walks⟩ := find_eq_ok_iff.1 found
  exact find_eq_ok_iff.2 ⟨valid, walk_of_keeps keeps walks⟩

theorem Keeps.isDirectory_eq (keeps : fs.Keeps fs') (directory : fs.isDirectory d = true) :
    fs'.isDirectory d = true := by
  obtain ⟨valid, q, walks, e, there, node⟩ := isDirectory_iff.1 directory
  exact isDirectory_iff.2 ⟨valid, q, walk_of_keeps keeps walks, e, keeps q e there, node⟩

theorem keeps_of_makeDirectory (new : fs.makeDirectory d = .ok fs') : fs.Keeps fs' := by
  obtain ⟨place, free, rfl, -⟩ := eq_set_of_makeDirectory new
  exact keeps_set free _

theorem isDirectory_of_makeDirectory (made : fs.makeDirectory p = .ok fs') :
    fs'.isDirectory p = true := by
  obtain ⟨place, -, rfl, found⟩ := eq_set_of_makeDirectory made
  obtain ⟨valid, walks⟩ := find_eq_ok_iff.1 found
  exact isDirectory_iff.2 ⟨valid, place, walks, newDirectory, by rw [at?_set, if_pos rfl], rfl⟩

theorem checkPath_iff :
    checkPath p = .ok () ↔ 0 ∉ p.bytes ∧ p.bytes ≠ [] ∧ p.bytes.length ≤ maxPath := by
  unfold checkPath
  by_cases zero : 0 ∈ p.bytes
  · simp [zero]
  by_cases nothing : p.bytes = []
  · simp [nothing]
  by_cases long : maxPath < p.bytes.length
  · simp [zero, nothing, long, Nat.not_le.2 long]
  · simp [zero, nothing, long, Nat.not_lt.1 long]

theorem checkPath_of_above (up : Above d q) (valid : checkPath q = .ok ()) :
    checkPath d = .ok () := by
  obtain ⟨named, rest, q_eq⟩ := up
  obtain ⟨zero, -, short⟩ := checkPath_iff.1 valid
  rw [q_eq, List.mem_append, not_or] at zero
  rw [q_eq, List.length_append] at short
  exact checkPath_iff.2 ⟨zero.1, named, Nat.le_of_add_right_le short⟩

theorem steps_of_above (up : Above d q) : ∃ more, more ≠ [] ∧ q.steps = d.steps ++ more := by
  obtain ⟨named, rest, q_eq⟩ := up
  exact ⟨pieces slash rest, pieces_ne_nil slash rest, steps_append named q_eq⟩

/-- What has steps after it on the way to a directory is one itself. -/
theorem isDirectory_of_walk {more : List Name} (valid : checkPath d = .ok ()) (goes : more ≠ [])
    (walks : fs.walk maxLinks [] (d.steps ++ more) = .ok (.entry place))
    (there : fs.DirectoryAt place) : fs.isDirectory d = true := by
  obtain ⟨e, stops⟩ | ⟨left, next, leads⟩ := fs.leads_or_stops maxLinks [] d.steps
  · rw [stops more goes] at walks
    cases walks
  · rw [leads] at walks
    have arrives := leads []
    rw [List.append_nil, walk_nil] at arrives
    exact isDirectory_iff.2 ⟨valid, next, arrives, directoryAt_of_walk walks there⟩

/-- What a path leads through is a directory if it leads to one. -/
theorem isDirectory_of_above (up : Above d q) (directory : fs.isDirectory q = true) :
    fs.isDirectory d = true := by
  obtain ⟨valid, place, walks, there⟩ := isDirectory_iff.1 directory
  obtain ⟨more, goes, steps_eq⟩ := steps_of_above up
  rw [steps_eq] at walks
  exact isDirectory_of_walk (checkPath_of_above up valid) goes walks there

/-- A directory cannot be made: something else stands in its place, or there is another failure. -/
structure Refuses (fs : FileSystem) (d : Path) (e : IoError) : Prop where
  error : fs.makeDirectory d = .error e
  other : e = .alreadyExists → fs.isDirectory d = false

/-- All that can come of making one directory. -/
inductive Ensured (fs : FileSystem) (d : Path) : Change → Prop
  | made {fs' : FileSystem} (new : fs.makeDirectory d = .ok fs') : Ensured fs d (.ok (), fs')
  | there (directory : fs.isDirectory d = true) : Ensured fs d (.ok (), fs)
  | refused {e : IoError} (refuses : fs.Refuses d e) : Ensured fs d (.error e, fs)

theorem ensureDirectory_ensured (fs : FileSystem) (d : Path) :
    fs.Ensured d (fs.ensureDirectory d) := by
  unfold ensureDirectory
  split
  · rename_i new
    exact .made new
  · rename_i exist
    split
    · rename_i directory
      exact .there directory
    · rename_i other
      exact .refused ⟨exist, fun _ => by simpa using other⟩
  · rename_i e exist error
    exact .refused ⟨error, fun same => absurd same exist⟩

/-- Directories made, or found, one after another, the last one of the list first. -/
inductive Built (fs : FileSystem) : List Path → FileSystem → Prop
  | nothing : Built fs [] fs
  | made {mid fs' : FileSystem} {d : Path} {ds : List Path} (before : Built fs ds mid)
      (new : mid.makeDirectory d = .ok fs') : Built fs (d :: ds) fs'
  | there {fs' : FileSystem} {d : Path} {ds : List Path} (before : Built fs ds fs')
      (directory : fs'.isDirectory d = true) : Built fs (d :: ds) fs'

theorem Built.keeps (built : fs.Built ds fs') : fs.Keeps fs' := by
  induction built with
  | nothing => exact .refl fs
  | made before new ih => exact ih.trans (keeps_of_makeDirectory new)
  | there before directory ih => exact ih

theorem Built.isDirectory (built : fs.Built ds fs') : ∀ d ∈ ds, fs'.isDirectory d = true := by
  induction built with
  | nothing => exact nofun
  | made before new ih =>
    exact List.forall_mem_cons.2 ⟨isDirectory_of_makeDirectory new,
      fun d mem => (keeps_of_makeDirectory new).isDirectory_eq (ih d mem)⟩
  | there before directory ih => exact List.forall_mem_cons.2 ⟨directory, ih⟩

/-- How far a call has come that makes directories: some were not reached, of which the last one
could not be made; then come those that were made or found; and those after them were not looked
at. -/
structure Reached (fs : FileSystem) (ds : List Path) (call : Change)
    (unmade built unseen : List Path) : Prop where
  split : ds = unmade ++ built ++ unseen
  builds : fs.Built built call.2
  all : call.1 = .ok () → unmade = [] ∧ (built = [] → unseen = [])
  refuses : ∀ e, call.1 = .error e → ∃ longer d, unmade = longer ++ [d] ∧ call.2.Refuses d e

/-- One more directory is tried after some have been made. -/
theorem exists_reached_of_ensured {call : Change} {built : List Path} (builds : fs.Built built mid)
    (ensured : mid.Ensured d call) (unseen : List Path) :
    ∃ unmade built', Reached fs (d :: built ++ unseen) call unmade built' unseen := by
  cases ensured with
  | made new => exact ⟨[], d :: built, rfl, .made builds new, fun _ => ⟨rfl, nofun⟩, nofun⟩
  | there directory =>
    exact ⟨[], d :: built, rfl, .there builds directory, fun _ => ⟨rfl, nofun⟩, nofun⟩
  | refused refuses =>
    refine ⟨[d], built, rfl, builds, nofun, ?_⟩
    rintro e ⟨⟩
    exact ⟨[], d, rfl, refuses⟩

theorem exists_reached (fs : FileSystem) (ds : List Path) :
    ∃ unmade built unseen, Reached fs ds (fs.makeAll ds) unmade built unseen := by
  induction ds with
  | nil => exact ⟨[], [], [], rfl, .nothing, fun _ => ⟨rfl, fun _ => rfl⟩, nofun⟩
  | cons d shorter ih =>
    have first := fs.ensureDirectory_ensured d
    rw [makeAll]
    split
    · obtain ⟨unmade, built, unseen, reached⟩ := ih
      split
      · -- those above it are there now, and it is tried again
        rename_i mid made
        rw [made] at reached
        obtain ⟨rfl, -⟩ := reached.all rfl
        obtain ⟨unmade, built', reached'⟩ :=
          exists_reached_of_ensured reached.builds (mid.ensureDirectory_ensured d) unseen
        refine ⟨unmade, built', unseen, ?_⟩
        rw [reached.split]
        exact reached'
      · rename_i unfinished
        refine ⟨d :: unmade, built, unseen, ?_, reached.builds, fun ok => ?_, fun e failed => ?_⟩
        · rw [reached.split]
          rfl
        · exact (unfinished () _ (Prod.ext ok rfl)).elim
        · obtain ⟨longer, d', rfl, refuses⟩ := reached.refuses e failed
          exact ⟨d :: longer, d', rfl, refuses⟩
    · obtain ⟨unmade, built, reached⟩ := exists_reached_of_ensured .nothing first shorter
      exact ⟨unmade, built, shorter, reached⟩

theorem isDirectory_of_makeAll (made : fs.makeAll (d :: ds) = (.ok (), fs')) :
    fs'.isDirectory d = true := by
  obtain ⟨unmade, built, unseen, reached⟩ := fs.exists_reached (d :: ds)
  rw [made] at reached
  obtain ⟨rfl, first⟩ := reached.all rfl
  have split := reached.split
  cases built with
  | nil =>
    rw [first rfl] at split
    cases split
  | cons d' built =>
    cases split
    exact reached.builds.isDirectory d List.mem_cons_self

/-- Where not all could be made, one of them cannot be made now, and its failure is the answer. -/
theorem refuses_of_makeAll (failed : fs.makeAll ds = (.error e, fs')) :
    ∃ d ∈ ds, fs'.Refuses d e := by
  obtain ⟨unmade, built, unseen, reached⟩ := fs.exists_reached ds
  rw [failed] at reached
  obtain ⟨longer, d, rfl, refuses⟩ := reached.refuses e rfl
  exact ⟨d, by simp [reached.split], refuses⟩

/-- Whether something that is no directory stands in the place of one of those above a path. -/
def Blocked (fs : FileSystem) (p : Path) : Prop :=
  ∃ d ∈ directoriesAbove p, fs.Occupied d ∧ fs.isDirectory d = false

/-- The directory where a path starts, if it starts at the root. -/
theorem isDirectory_root (rooted : fs.DirectoryAt []) {absolute : Bool}
    (named : (ofSteps absolute []).bytes ≠ []) : fs.isDirectory (ofSteps absolute []) = true := by
  cases absolute with
  | false => exact absurd rfl named
  | true => exact isDirectory_iff.2 ⟨rfl, [], walk_empty_name.trans walk_nil, rooted⟩

/-- A path whose parents could be made has a directory for its parent unless something else stands
in the place of one of those above it. -/
theorem isDirectory_parent_iff (rooted : fs.DirectoryAt []) (parent : p.parent? = some q)
    (named : q.bytes ≠ []) (made : fs.createParents p = (.ok (), fs')) :
    fs'.isDirectory q = true ↔ ¬ fs'.Blocked p := by
  obtain ⟨none_above, rfl⟩ | ⟨shorter, above_eq, longer⟩ := directoriesAbove_of_parent? parent
  · -- nothing has to be made, and the parent is the root
    rw [createParents, none_above] at made
    cases made
    simp [isDirectory_root rooted named, Blocked, none_above]
  · constructor
    · rintro directory ⟨d, mem, -, other⟩
      rw [above_eq] at mem
      obtain rfl | mem := List.mem_cons.1 mem
      · rw [directory] at other
        cases other
      · rw [isDirectory_of_above (longer d mem) directory] at other
        cases other
    · intro free
      -- an entry in the way would be found by the call that fails on it, and is still there
      rw [createParents, above_eq] at made
      split at made
      · rename_i failed
        cases made
        obtain ⟨d, mem, refuses⟩ := refuses_of_makeAll failed
        have taken := makeDirectory_eq_alreadyExists_iff.1 refuses.error
        exact absurd ⟨d, above_eq ▸ mem, taken, refuses.other rfl⟩ free
      · exact isDirectory_of_makeAll made

/-- To make the directories above a path fails as making one of them does, and never for something
that stands there already. -/
theorem error_of_createParents (failed : fs.createParents p = (.error e, fs')) :
    e ≠ .alreadyExists ∧ ∃ d ∈ directoriesAbove p, fs'.makeDirectory d = .error e := by
  unfold createParents at failed
  split at failed
  · cases failed
  · rename_i other
    obtain ⟨d, mem, refuses⟩ := refuses_of_makeAll failed
    refine ⟨?_, d, mem, refuses.error⟩
    rintro rfl
    exact other _ failed

end Ferry.Files.FileSystem
