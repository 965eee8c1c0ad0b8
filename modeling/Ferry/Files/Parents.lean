import Ferry.Files.System

/-!
Making the directories above a path. The longest is tried first; where it lacks the one above it,
that one is made before it is tried again. What was made before a failure stays.
-/
namespace Ferry.Files.FileSystem

/-- The outcome of an operation that can change files even where it fails. -/
abbrev Change := Except IoError Unit × FileSystem

/-- Makes one directory; one that is there already is as good. -/
def ensureDirectory (fs : FileSystem) (p : Path) : Change :=
  match fs.makeDirectory p with
  | .ok fs => (.ok (), fs)
  | .error .alreadyExists =>
    (if fs.isDirectory p then .ok () else .error .alreadyExists, fs)
  | .error e => (.error e, fs)

/-- Makes the first of the given directories, and before it those of the others that are
missing. -/
def makeAll (fs : FileSystem) : List Path → Change
  | [] => (.ok (), fs)
  | p :: shorter =>
    match fs.ensureDirectory p with
    | (.error .notFound, _) =>
      match fs.makeAll shorter with
      | (.ok _, fs) => fs.ensureDirectory p
      | failed => failed
    | done => done

/-- The directories above a path, longest first. -/
def directoriesAbove (p : Path) : List Path := p.trail.dropLast.reverse

/-- Makes every missing directory above a path. Something that stands in the place of one is taken
to have been made by someone else. -/
def createParents (fs : FileSystem) (p : Path) : Change :=
  match fs.makeAll (directoriesAbove p) with
  | (.error .alreadyExists, fs) => (.ok (), fs)
  | done => done

end Ferry.Files.FileSystem
