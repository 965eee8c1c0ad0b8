import Ferry.Files.System

/-!
Following the steps of a path. What one step does is said once (`step`, `walk_cons`): it fails
whatever comes after it, it has to be the last one, or it leads on, a link by way of its target.
From this, by induction on the links that may still be followed and on the steps, some steps either
fail before any that come after them, or lead to a place from which those go on (`leads_or_stops`).

What is found stays where it is when entries are added (`walk_of_keeps`), slashes that are doubled
lead nowhere (`walk_named`), and what has steps after it on the way to a directory is one itself
(`directoryAt_of_walk`).
-/
namespace Ferry.Files.FileSystem

/-- What one step does, whatever the steps after it. -/
inductive Step
  | fails (e : IoError)
  /-- It has to be the last one; `e` is the failure where it is not. -/
  | ends (found : Found) (e : IoError)
  | leads (next : Place)
  /-- It is a link: the steps of its target come next, with fewer links left. -/
  | follows (left : Nat) (next : Place) (target : List Name)

/-- One step from a directory. -/
def step (fs : FileSystem) (links : Nat) (place : Place) (n : Name) : Step :=
  if n.isEmpty then .leads place
  else
    match fs.checkSearch place with
    | .error e => .fails e
    | .ok _ =>
      if n = here then .leads place
      else if n = above then .leads place.dropLast
      else if maxName < n.length then .fails .nameTooLong
      else
        match fs.at? (place ++ [n]) with
        | none => .ends (.vacant place n) .notFound
        | some e =>
          match e.node, links with
          | .directory, _ => .leads (place ++ [n])
          | .file _, _ => .ends (.entry (place ++ [n])) .notADirectory
          | .link _, 0 => .fails .linkLoop
          | .link target, left + 1 =>
            .follows left (if target.isAbsolute then [] else place) target.steps

/-- Whether a directory stands at a place. -/
def DirectoryAt (fs : FileSystem) (place : Place) : Prop :=
  ∃ e, fs.at? place = some e ∧ e.node = .directory

/-- Whether everything that stands in one file system stands in another. -/
def Keeps (fs fs' : FileSystem) : Prop := ∀ place e, fs.at? place = some e → fs'.at? place = some e

variable {fs fs' : FileSystem} {links left : Nat} {place q : Place} {n : Name}
  {names target xs ys : List Name}

@[simp]
theorem walk_nil : fs.walk links place [] = .ok (.entry place) := by
  rw [walk]

theorem walk_cons : fs.walk links place (n :: names) =
    match fs.step links place n with
    | .fails e => .error e
    | .ends found e => if names.isEmpty then .ok found else .error e
    | .leads next => fs.walk links next names
    | .follows left next target => fs.walk left next (target ++ names) := by
  -- the two take the same branches, but the first one looks at the names that follow
  rw [walk, step]
  by_cases unnamed : n.isEmpty
  · simp only [unnamed, if_true]
  simp only [unnamed]
  cases fs.checkSearch place with
  | error e => rfl
  | ok _ =>
    change (if n = here then _ else _) = _
    by_cases stays : n = here
    · simp only [stays, if_true]
      rfl
    by_cases up : n = above
    · simp only [up]
      rfl
    by_cases long : maxName < n.length
    · simp only [stays, up, long]
      rfl
    simp only [stays, up, long]
    cases fs.at? (place ++ [n]) with
    | none => rfl
    | some e =>
      obtain ⟨node, -⟩ := e
      cases node with
      | directory => rfl
      | file content => rfl
      | link target => cases links <;> rfl

@[simp]
theorem walk_empty_name : fs.walk links place ([] :: names) = fs.walk links place names := by
  rw [walk_cons]
  rfl

theorem lt_of_step_eq_follows {next : Place}
    (follows : fs.step links place n = .follows left next target) : left < links := by
  revert follows
  fun_cases step fs links place n with
  | case10 =>
    -- the step is a link, and one more may be followed
    rintro ⟨⟩
    exact Nat.lt_succ_self _
  | _ => exact nofun

/-- What holds where there are no steps, and of a step and those after it where it holds of those
and, with fewer links, of any with some steps more at their front. -/
theorem walk_induction {motive : Nat → List Name → Prop} (nil : ∀ links, motive links [])
    (cons : ∀ links n names, motive links names →
      (∀ left < links, ∀ target, motive left (target ++ names)) → motive links (n :: names))
    (links : Nat) (names : List Name) : motive links names := by
  induction links using Nat.strongRecOn generalizing names with
  | ind links fewer =>
    induction names with
    | nil => exact nil links
    | cons n names ih => exact cons links n names ih fun left lt target => fewer left lt _

theorem checkSearch_ne_alreadyExists : fs.checkSearch place ≠ .error .alreadyExists := by
  unfold checkSearch
  split
  · simp
  · split
    · simp
    · split <;> simp

theorem ne_alreadyExists_of_step : (∀ e, fs.step links place n = .fails e → e ≠ .alreadyExists) ∧
    ∀ found e, fs.step links place n = .ends found e → e ≠ .alreadyExists := by
  fun_cases step fs links place n with
  | case2 named e =>
    rename_i search
    refine ⟨?_, nofun⟩
    rintro _ ⟨⟩ rfl
    exact checkSearch_ne_alreadyExists search
  | _ => grind

/-- To find something is no failure on the way. -/
theorem walk_ne_alreadyExists : fs.walk links place names ≠ .error .alreadyExists := by
  induction links, names using walk_induction generalizing place with
  | nil links => simp
  | cons links n names ih fewer =>
    rw [walk_cons]
    cases step_eq : fs.step links place n with
    | fails e => simpa using ne_alreadyExists_of_step.1 e step_eq
    | ends found e =>
      dsimp only
      split
      · nofun
      · simpa using ne_alreadyExists_of_step.2 found e step_eq
    | leads next => exact ih
    | follows left next target => exact fewer left (lt_of_step_eq_follows step_eq) target

/-- Some steps either fail before all that come after them, or lead to a place from which those
go on. -/
theorem leads_or_stops (fs : FileSystem) (links : Nat) (place : Place) (xs : List Name) :
    (∃ e, ∀ ys, ys ≠ [] → fs.walk links place (xs ++ ys) = .error e) ∨
      ∃ left next, ∀ ys, fs.walk links place (xs ++ ys) = fs.walk left next ys := by
  -- the steps of a link's target stand before what is left of `xs`, so they count as some of these
  induction links, xs using walk_induction generalizing place with
  | nil links => exact .inr ⟨links, place, fun ys => rfl⟩
  | cons links n xs ih fewer =>
    simp only [List.cons_append, walk_cons]
    cases step_eq : fs.step links place n with
    | fails e => exact .inl ⟨e, fun ys _ => rfl⟩
    | ends found e =>
      refine .inl ⟨e, fun ys more => if_neg ?_⟩
      simp [more]
    | leads next => exact ih next
    | follows left next target =>
      simp only [← List.append_assoc]
      exact fewer left (lt_of_step_eq_follows step_eq) target next

theorem step_eq_leads (search : fs.checkSearch place = .ok ()) (named : n ≠ []) (stays : n ≠ here)
    (up : n ≠ above) (short : n.length ≤ maxName) (directory : fs.DirectoryAt (place ++ [n])) :
    fs.step links place n = .leads (place ++ [n]) := by
  obtain ⟨e, there, directory⟩ := directory
  simp [step, named, search, stays, up, Nat.not_lt.2 short, there, directory]

/-- Where some steps lead, with a slash at their end, any others go on. -/
theorem walk_append (found : fs.walk links place (xs ++ [[]]) = .ok (.entry q)) :
    ∃ left, ∀ ys, fs.walk links place (xs ++ ys) = fs.walk left q ys := by
  obtain ⟨e, stops⟩ | ⟨left, next, leads⟩ := fs.leads_or_stops links place xs
  · rw [stops _ (by simp)] at found
    cases found
  · rw [leads, walk_empty_name, walk_nil] at found
    cases found
    exact ⟨left, leads⟩

theorem directoryAt_of_checkSearch (found : fs.checkSearch place = .ok ()) :
    fs.DirectoryAt place := by
  unfold checkSearch at found
  cases there : fs.at? place with
  | none => simp [there] at found
  | some e =>
    by_cases directory : e.node = .directory
    · exact ⟨e, there, directory⟩
    · simp [there, directory] at found

theorem Keeps.refl (fs : FileSystem) : fs.Keeps fs := fun _ _ there => there

theorem Keeps.trans {mid : FileSystem} (first : fs.Keeps mid) (later : mid.Keeps fs') :
    fs.Keeps fs' :=
  fun place e there => later place e (first place e there)

theorem Keeps.checkSearch_eq (keeps : fs.Keeps fs') (found : fs.checkSearch place = .ok ()) :
    fs'.checkSearch place = .ok () := by
  obtain ⟨e, there, -⟩ := directoryAt_of_checkSearch found
  unfold checkSearch at found ⊢
  rw [there] at found
  rw [keeps _ _ there]
  exact found

theorem keeps_set (free : fs.at? place = none) (e : Entry) : fs.Keeps (fs.set place e) := by
  intro other old there
  rw [at?_set, if_neg ?_]
  · exact there
  · rintro rfl
    rw [free] at there
    cases there

/-- With more entries a step does what it did, unless it failed or came to a free name. -/
theorem Keeps.step_eq (keeps : fs.Keeps fs') (links : Nat) (place : Place) (n : Name) :
    fs'.step links place n = fs.step links place n ∨ (∃ e, fs.step links place n = .fails e) ∨
      ∃ e, fs.step links place n = .ends (.vacant place n) e := by
  by_cases unnamed : n.isEmpty
  · left
    simp only [step, unnamed, if_true]
  cases search : fs.checkSearch place with
  | error e =>
    right; left
    exact ⟨e, by simp [step, unnamed, search]⟩
  | ok _ =>
    have search' := keeps.checkSearch_eq search
    by_cases plain : n = here ∨ n = above ∨ maxName < n.length
    · -- what is stepped to is not looked at
      left
      rcases plain with rfl | rfl | long
      · simp [step, search, search']
      · simp [step, search, search']
      · simp [step, search, search', long]
    obtain ⟨stays, up, long⟩ : n ≠ here ∧ n ≠ above ∧ ¬ maxName < n.length := by
      simpa only [not_or] using plain
    cases there : fs.at? (place ++ [n]) with
    | none =>
      right; right
      exact ⟨.notFound, by simp [step, unnamed, search, stays, up, long, there]⟩
    | some e =>
      left
      simp only [step, search, search', there, keeps _ _ there]

theorem walk_of_keeps (keeps : fs.Keeps fs')
    (found : fs.walk links place names = .ok (.entry q)) :
    fs'.walk links place names = .ok (.entry q) := by
  induction links, names using walk_induction generalizing place with
  | nil links => simpa using found
  | cons links n names ih fewer =>
    rw [walk_cons] at found ⊢
    obtain same | ⟨e, fails⟩ | ⟨e, ends⟩ := keeps.step_eq links place n
    · rw [same]
      cases step_eq : fs.step links place n with
      | fails e => simp [step_eq] at found
      | ends other e => simpa only [step_eq] using found
      | leads next => exact ih (by simpa only [step_eq] using found)
      | follows left next target =>
        have fewer_left := lt_of_step_eq_follows step_eq
        exact fewer left fewer_left target (by simpa only [step_eq] using found)
    · simp [fails] at found
    · cases names <;> simp [ends] at found

/-- The empty names between some steps lead nowhere, if there is one at their end. -/
theorem walk_named : fs.walk links place ((xs.filter fun n => !n.isEmpty) ++ [[]]) =
    fs.walk links place (xs ++ [[]]) := by
  induction xs generalizing links place with
  | nil => rfl
  | cons n xs ih =>
    by_cases unnamed : n = []
    · subst unnamed
      rw [List.cons_append, walk_empty_name]
      exact ih
    -- one step at a time: nothing is known of where `xs` leads as a whole
    rw [List.filter_cons_of_pos (by simpa using unnamed), List.cons_append, List.cons_append,
      ← List.singleton_append, ← List.singleton_append (l := xs ++ [[]])]
    obtain ⟨e, stops⟩ | ⟨left, next, leads⟩ := fs.leads_or_stops links place [n]
    · rw [stops _ (by simp), stops _ (by simp)]
    · rw [leads, leads, ih]

/-- Without the empty names between them, and with a slash at their end, steps lead nowhere
else. -/
theorem walk_of_walk_named
    (found : fs.walk links place ((xs.filter fun n => !n.isEmpty) ++ [[]]) = .ok (.entry q)) :
    fs.walk links place xs = .ok (.entry q) := by
  rw [walk_named] at found
  obtain ⟨left, leads⟩ := walk_append found
  rw [← List.append_nil xs, leads, ← walk_empty_name, ← leads, found]

/-- What leads to a directory has started from one. -/
theorem directoryAt_of_walk (found : fs.walk links place ys = .ok (.entry q))
    (directory : fs.DirectoryAt q) : fs.DirectoryAt place := by
  induction ys with
  | nil =>
    rw [walk_nil] at found
    cases found
    exact directory
  | cons n ys ih =>
    by_cases unnamed : n = []
    · subst unnamed
      exact ih (by simpa using found)
    cases search : fs.checkSearch place with
    | ok _ => exact directoryAt_of_checkSearch search
    | error e => simp [walk_cons, step, unnamed, search] at found

theorem isDirectory_iff {p : Path} : fs.isDirectory p = true ↔
    checkPath p = .ok () ∧
      ∃ q, fs.walk maxLinks [] p.steps = .ok (.entry q) ∧ fs.DirectoryAt q := by
  unfold isDirectory resolve find DirectoryAt
  cases checkPath p with
  | error e => simp [bind, Except.bind]
  | ok _ =>
    cases fs.walk maxLinks [] p.steps with
    | error e => simp [bind, Except.bind]
    | ok found =>
      cases found with
      | vacant place n => simp [bind, Except.bind]
      | entry place => cases there : fs.at? place <;> simp [bind, Except.bind, there]

end Ferry.Files.FileSystem
