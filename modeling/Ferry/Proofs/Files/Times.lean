import Ferry.Proofs.Bind
import Ferry.Proofs.Files.Walk
import Ferry.Proofs.Time.Distance

/-!
Setting the times of files and reading them back. What a path leads to depends on no times
(`Alike.find_eq`), so after the times of an entry were set the same path leads to it again, and the
second that was set is read, as an instant where the calendar has one (`TimesSet.stat_eq`).

Which error comes of a failure is a matter of the failure alone. `Answers` says it for any call of
the operating system that sets times, whatever files it is about and whoever owns them.
-/
namespace Ferry.Files

open Ferry.Time

namespace FileSystem

variable {fs fs' : FileSystem} {links : Nat} {place : Place} {n : Name} {names : List Name}
  {p : Path} {e : Entry} {secs : Int}

/-- Whether two file systems differ in the times of their entries at most. -/
def Alike (fs fs' : FileSystem) : Prop :=
  ∀ place, (fs.at? place = none ∧ fs'.at? place = none) ∨
    ∃ e e', fs.at? place = some e ∧ fs'.at? place = some e' ∧ e'.node = e.node ∧
      e'.mode = e.mode ∧ e'.isOwned = e.isOwned

theorem Alike.checkSearch_eq (alike : fs.Alike fs') (place : Place) :
    fs'.checkSearch place = fs.checkSearch place := by
  unfold checkSearch
  obtain ⟨free, free'⟩ | ⟨e, e', there, there', node, mode, owner⟩ := alike place
  · rw [free, free']
  · have search : e'.isSearchable = e.isSearchable := by
      rw [Entry.isSearchable, Entry.bits, mode, owner]
      rfl
    rw [there, there']
    simp only [node, search]

theorem Alike.step_eq (alike : fs.Alike fs') (links : Nat) (place : Place) (n : Name) :
    fs'.step links place n = fs.step links place n := by
  unfold step
  rw [alike.checkSearch_eq]
  obtain ⟨free, free'⟩ | ⟨e, e', there, there', node, -⟩ := alike (place ++ [n])
  · rw [free, free']
  · rw [there, there']
    simp only [node]

theorem Alike.walk_eq (alike : fs.Alike fs') (links : Nat) (place : Place) (names : List Name) :
    fs'.walk links place names = fs.walk links place names := by
  induction links, names using walk_induction generalizing place with
  | nil links => rw [walk_nil, walk_nil]
  | cons links n names ih fewer =>
    rw [walk_cons, walk_cons, alike.step_eq]
    cases step_eq : fs.step links place n with
    | fails e => rfl
    | ends found e => rfl
    | leads next => exact ih next
    | follows left next target => exact fewer left (lt_of_step_eq_follows step_eq) target next

/-- A path leads to the same place whatever the times are. -/
theorem Alike.find_eq (alike : fs.Alike fs') (p : Path) : fs'.find p = fs.find p := by
  unfold find
  rw [alike.walk_eq]

/-- What a path leads to is the entry at the place where the way ends. -/
theorem resolve_eq_ok_iff :
    fs.resolve p = .ok (place, e) ↔ fs.find p = .ok (.entry place) ∧ fs.at? place = some e := by
  unfold resolve
  constructor
  · intro resolved
    obtain ⟨found, leads, entry⟩ := exists_of_bind_eq_ok resolved
    cases found with
    | vacant directory name => cases entry
    | entry found =>
      cases there : fs.at? found with
      | none => simp only [there, reduceCtorEq] at entry
      | some old =>
        simp only [there, Except.ok.injEq, Prod.mk.injEq] at entry
        obtain ⟨rfl, rfl⟩ := entry
        exact ⟨leads, there⟩
  · rintro ⟨leads, there⟩
    simp only [leads, there, bind, Except.bind]

/-- An entry has got new times, both of them `secs` and no part of a second, and nothing else has
changed. -/
structure TimesSet (fs : FileSystem) (place : Place) (e : Entry) (secs : Int) (fs' : FileSystem) :
    Prop where
  before : fs.at? place = some e
  after : fs'.at? place = some { e with accessed := ⟨secs, 0⟩, modified := ⟨secs, 0⟩ }
  others : ∀ other, other ≠ place → fs'.at? other = fs.at? other

theorem timesSet_set (there : fs.at? place = some e) (secs : Int) :
    fs.TimesSet place e secs (fs.set place (e.setTimes secs)) where
  before := there
  after := by rw [at?_set, if_pos rfl, Entry.setTimes]
  others other apart := by rw [at?_set, if_neg apart]

theorem TimesSet.alike (changed : fs.TimesSet place e secs fs') : fs.Alike fs' := by
  intro other
  by_cases same : other = place
  · subst same
    exact .inr ⟨_, _, changed.before, changed.after, rfl, rfl, rfl⟩
  · rw [changed.others other same]
    cases fs.at? other with
    | none => exact .inl ⟨rfl, rfl⟩
    | some old => exact .inr ⟨old, old, rfl, rfl, rfl, rfl, rfl⟩

/-- The path that led to the entry leads to it again. -/
theorem TimesSet.resolve_eq (changed : fs.TimesSet place e secs fs')
    (found : fs.find p = .ok (.entry place)) :
    fs'.resolve p = .ok (place, { e with accessed := ⟨secs, 0⟩, modified := ⟨secs, 0⟩ }) :=
  resolve_eq_ok_iff.2 ⟨(changed.alike.find_eq p).trans found, changed.after⟩

/-- What was set is read. -/
theorem TimesSet.stat_eq (changed : fs.TimesSet place e secs fs')
    (found : fs.find p = .ok (.entry place)) :
    fs'.stat p = .ok ⟨e.size, Instant.of? secs 0⟩ := by
  have read : (⟨secs, 0⟩ : FileTime).instant? = Instant.of? secs 0 :=
    FileTime.instant?_eq (by decide)
  unfold stat
  rw [changed.resolve_eq found, ← read]
  rfl

/-- Times are set of whatever of the user's own a path leads to, and of nothing else. -/
theorem setEntryTimes_eq_ok_iff : fs.setEntryTimes p secs = .ok fs' ↔
    ∃ place e, fs.resolve p = .ok (place, e) ∧ e.isOwned = true ∧
      fs.set place (e.setTimes secs) = fs' := by
  unfold setEntryTimes
  cases fs.resolve p with
  | ok found =>
    obtain ⟨place, e⟩ := found
    simp only [Except.ok.injEq, Prod.mk.injEq]
    constructor
    · intro set
      split at set
      · exact ⟨place, e, ⟨rfl, rfl⟩, ‹_›, Except.ok.inj set⟩
      · cases set
    · rintro ⟨_, _, ⟨rfl, rfl⟩, owned, rfl⟩
      exact if_pos owned
  | error failure => cases failure <;> simp

/-- What is another's keeps its times. -/
theorem setEntryTimes_of_foreign (found : fs.resolve p = .ok (place, e))
    (foreign : e.isOwned = false) : fs.setEntryTimes p secs = .error .notPermitted := by
  unfold setEntryTimes
  rw [found]
  simp [foreign]

end FileSystem

/-- All that can come of setting times by a call of the operating system. What the call answers
decides, but seconds too far from 1970 are refused before it is asked, be there a file or not. -/
inductive Answers {σ : Type} (call : Path → Int → Except IoError σ) (p : Path) (secs : Int) :
    Except TimesError σ → Prop
  | far (far : timesLimit ≤ secs.natAbs) : Answers call p secs
      (.error (.io (.refused ("timestamp " ++ toString secs ++ " out of range"))))
  | set {left : σ} (near : secs.natAbs < timesLimit) (set : call p secs = .ok left) :
      Answers call p secs (.ok left)
  | notOwned {e : IoError} (near : secs.natAbs < timesLimit) (failed : call p secs = .error e)
      (permission : e.isPermission = true) : Answers call p secs (.error (.notOwned p e))
  | untouched {e : IoError} (near : secs.natAbs < timesLimit) (failed : call p secs = .error e)
      (other : e.isPermission = false) : Answers call p secs (.error (.io e))

theorem setTimesBy_answers {σ : Type} (call : Path → Int → Except IoError σ) (p : Path)
    (secs : Int) : Answers call p secs (setTimesBy call p secs) := by
  unfold setTimesBy
  by_cases far : timesLimit ≤ secs.natAbs
  · rw [if_pos far]
    exact .far far
  have near := Nat.not_le.1 far
  rw [if_neg far]
  cases called : call p secs with
  | ok left => exact .set near called
  | error e =>
    change Answers call p secs (.error (timesError p e))
    rw [timesError]
    cases permission : e.isPermission with
    | true => exact .notOwned near called permission
    | false => exact .untouched near called permission

/-- Where times were set they are within the limit, and the call was answered so. -/
theorem Answers.eq_ok {σ : Type} {call : Path → Int → Except IoError σ} {p : Path} {secs : Int}
    {left : σ} (answers : Answers call p secs (.ok left)) :
    secs.natAbs < timesLimit ∧ call p secs = .ok left := by
  cases answers with
  | set near set => exact ⟨near, set⟩

namespace FileSystem

variable {fs fs' : FileSystem} {p : Path} {secs : Int}

theorem setTimes_eq_ok_iff : fs.setTimes p secs = .ok fs' ↔ secs.natAbs < timesLimit ∧
    ∃ place e, fs.resolve p = .ok (place, e) ∧ e.isOwned = true ∧
      fs.set place (e.setTimes secs) = fs' := by
  rw [← setEntryTimes_eq_ok_iff]
  constructor
  · intro set
    have answers : Answers fs.setEntryTimes p secs (fs.setTimes p secs) :=
      setTimesBy_answers fs.setEntryTimes p secs
    rw [set] at answers
    exact answers.eq_ok
  · rintro ⟨near, set⟩
    rw [setTimes, setTimesBy, if_neg (Nat.not_le.2 near), set]
    rfl

/-- Times can be set of any path that leads to an entry of the user's own, within the limit. -/
theorem exists_setTimes_iff : (∃ fs', fs.setTimes p secs = .ok fs') ↔
    secs.natAbs < timesLimit ∧ ∃ place e, fs.resolve p = .ok (place, e) ∧ e.isOwned = true := by
  constructor
  · rintro ⟨fs', set⟩
    obtain ⟨near, place, e, found, owned, -⟩ := setTimes_eq_ok_iff.1 set
    exact ⟨near, place, e, found, owned⟩
  · rintro ⟨near, place, e, found, owned⟩
    exact ⟨_, setTimes_eq_ok_iff.2 ⟨near, place, e, found, owned, rfl⟩⟩

/-- The error says whose the entry may be. -/
theorem setTimes_of_foreign {place : Place} {e : Entry} (near : secs.natAbs < timesLimit)
    (found : fs.resolve p = .ok (place, e)) (foreign : e.isOwned = false) :
    fs.setTimes p secs = .error (.notOwned p .notPermitted) := by
  rw [setTimes, setTimesBy, if_neg (Nat.not_le.2 near), setEntryTimes_of_foreign found foreign]
  rfl

/-- Where the times of a path could be set, the entry to which it leads has got them. -/
theorem timesSet_of_setTimes (set : fs.setTimes p secs = .ok fs') :
    ∃ place e, fs.resolve p = .ok (place, e) ∧ fs.TimesSet place e secs fs' := by
  obtain ⟨-, place, e, found, -, rfl⟩ := setTimes_eq_ok_iff.1 set
  exact ⟨place, e, found, timesSet_set (resolve_eq_ok_iff.1 found).2 secs⟩

/-- A failure to look at a file is the one on the way to it. -/
theorem stat_eq_error_iff {error : TimesError} :
    fs.stat p = .error error ↔ ∃ e, fs.resolve p = .error e ∧ error = .unseen p e := by
  unfold stat
  cases fs.resolve p with
  | ok found => simp
  | error e => simp [eq_comm]

end FileSystem

/-- The message of an error names a path. -/
def TimesError.Names (error : TimesError) (p : Path) : Prop :=
  ∃ before after, error.message = before ++ p.shown ++ after

theorem TimesError.names_unseen (p : Path) (e : IoError) : (TimesError.unseen p e).Names p :=
  ⟨_, "\": " ++ e.message, String.append_assoc ..⟩

theorem TimesError.names_notOwned (p : Path) (e : IoError) :
    (TimesError.notOwned p e).Names p := by
  have shape : ∀ a b c d f : String, a ++ b ++ c ++ d ++ f = a ++ b ++ (c ++ d ++ f) := by
    intro a b c d f
    simp only [String.append_assoc]
  exact ⟨_, _, shape ..⟩

/-- Both times of what a path leads to are set to a whole second, nothing else is changed, and the
second is read back by the same path as an instant, or as none where the calendar has none. Or there
is an error, by what the operating system answers, and it leaves the file system as it was. A file
that cannot be looked at is named, as is one whose times are not the user's to set, which only those
of the user's own are. -/
theorem times_set_or_refused (fs : FileSystem) (p : Path) (secs : Int) :
    ((∃ fs', fs.setTimes p secs = .ok fs') ↔ secs.natAbs < timesLimit ∧
      ∃ place e, fs.resolve p = .ok (place, e) ∧ e.isOwned = true) ∧
    (∀ place e, secs.natAbs < timesLimit → fs.resolve p = .ok (place, e) → e.isOwned = false →
      fs.setTimes p secs = .error (.notOwned p .notPermitted)) ∧
    (∀ fs', fs.setTimes p secs = .ok fs' → ∃ place e, fs.resolve p = .ok (place, e) ∧
      fs.TimesSet place e secs fs' ∧ fs'.stat p = .ok ⟨e.size, Instant.of? secs 0⟩ ∧
      Instant.of? secs 0 =
        if firstSecond ≤ secs ∧ secs ≤ lastSecond then some ⟨secs, 0⟩ else none) ∧
    Answers fs.setEntryTimes p secs (fs.setTimes p secs) ∧
    (∀ (σ : Type) (call : Path → Int → Except IoError σ),
      Answers call p secs (setTimesBy call p secs)) ∧
    (∀ error, fs.stat p = .error error ↔ ∃ e, fs.resolve p = .error e ∧ error = .unseen p e) ∧
    ∀ e, (TimesError.unseen p e).Names p ∧ (TimesError.notOwned p e).Names p := by
  refine ⟨FileSystem.exists_setTimes_iff,
    fun place e near found foreign => FileSystem.setTimes_of_foreign near found foreign,
    fun fs' set => ?_,
    setTimesBy_answers fs.setEntryTimes p secs, fun σ call => setTimesBy_answers call p secs,
    fun error => FileSystem.stat_eq_error_iff,
    fun e => ⟨TimesError.names_unseen p e, TimesError.names_notOwned p e⟩⟩
  obtain ⟨place, e, found, changed⟩ := FileSystem.timesSet_of_setTimes set
  have leads := (FileSystem.resolve_eq_ok_iff.1 found).1
  have whole : 0 < billion := by decide
  exact ⟨place, e, found, changed, changed.stat_eq leads, Instant.of?_of_part whole⟩

/-- Some seconds can be set, but are no instants when they are read. -/
example : (8210266876800 : Int).natAbs < timesLimit ∧ Instant.of? 8210266876800 0 = none := by
  decide

end Ferry.Files
