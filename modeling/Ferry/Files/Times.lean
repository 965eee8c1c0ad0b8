import Ferry.Files.System
import Ferry.Time.Instant

/-! The size and times of files: reading them, and setting the times to a whole second. -/
namespace Ferry.Files

open Ferry.Time

/-- Why the size or times of a file could not be read or set. -/
inductive TimesError
  /-- The file cannot be looked at. -/
  | unseen (path : Path) (source : IoError)
  /-- The file is there, or may be, but its times are not the user's to set. -/
  | notOwned (path : Path) (source : IoError)
  /-- Anything else. -/
  | io (source : IoError)
deriving DecidableEq, Repr

namespace TimesError

/-- The failure behind the error. -/
def source : TimesError → IoError
  | .unseen _ e => e
  | .notOwned _ e => e
  | .io e => e

def message : TimesError → String
  | .unseen path e => "could not retrieve file stat of \"" ++ path.shown ++ "\": " ++ e.message
  | .notOwned path e =>
    "the file was downloaded, but attempting to modify the utime of \"" ++ path.shown
      ++ "\" failed; is the file owned by another user? (" ++ e.message ++ ")"
  | .io e => e.passedOn

end TimesError

/-- The size of a file and the instant of its last change, if it is in the calendar range. -/
structure FileStat where
  size : Nat
  modified : Option Instant
deriving DecidableEq, Repr

/-- The instant of a file's time. -/
def FileTime.instant? (t : FileTime) : Option Instant := (Distance.of t.secs t.nanos).instant?

/-- The entry with both times at a whole second. -/
def Entry.setTimes (e : Entry) (secs : Int) : Entry :=
  { e with accessed := ⟨secs, 0⟩, modified := ⟨secs, 0⟩ }

namespace FileSystem

/-- The size and time of what a path leads to. -/
def stat (fs : FileSystem) (p : Path) : Except TimesError FileStat :=
  match fs.resolve p with
  | .ok (_, e) => .ok ⟨e.size, e.modified.instant?⟩
  | .error e => .error (.unseen p e)

/-- Sets both times of what a path leads to, which only the owner may do. A zero byte in the path is
an argument that the call refuses. -/
def setEntryTimes (fs : FileSystem) (p : Path) (secs : Int) : Except IoError FileSystem :=
  match fs.resolve p with
  | .ok (place, e) =>
    if e.isOwned then .ok (fs.set place (e.setTimes secs)) else .error .notPermitted
  | .error .zeroInPath => .error .invalidArgument
  | .error e => .error e

end FileSystem

/-- Seconds at or beyond this distance from 1970 are refused: their microseconds would not fit a
signed 64-bit word. -/
def timesLimit : Nat := Int64.maxValue.toInt.toNat / 1000000

/-- Whose failure it is that times could not be set. -/
def timesError (p : Path) (e : IoError) : TimesError :=
  if e.isPermission then .notOwned p e else .io e

/-- Sets both times of what a path leads to, to a whole second, by a call of the operating system
that leaves a state `σ` where it succeeds. -/
def setTimesBy {σ : Type} (call : Path → Int → Except IoError σ) (p : Path) (secs : Int) :
    Except TimesError σ :=
  if timesLimit ≤ secs.natAbs then
    .error (.io (.refused ("timestamp " ++ toString secs ++ " out of range")))
  else (call p secs).mapError (timesError p)

/-- Sets both times of what a path leads to, to a whole second. -/
def FileSystem.setTimes (fs : FileSystem) (p : Path) (secs : Int) : Except TimesError FileSystem :=
  setTimesBy fs.setEntryTimes p secs

end Ferry.Files
