import Ferry.Files.Slice
import Ferry.Settings

/-! Settings from a file. Where no file can be seen the initial settings apply. -/
namespace Ferry.Settings

open Ferry.Files Ferry.Json

/-- Why a settings file could not be read. -/
inductive LoadError
  | io (source : IoError)
  | content (problem : Problem)
deriving DecidableEq, Repr

/-- The text of a file. -/
def readText (fs : FileSystem) (p : Path) : Except IoError String := do
  let h ← fs.openRead p
  match h.node with
  | .file content =>
    match Utf8.string? content with
    | some text => .ok text
    | none => .error .notText
  | _ => .error .isADirectory

/-- The settings in a file. -/
def load (fs : FileSystem) (p : Path) : Except LoadError Settings :=
  if fs.exists? p then do
    let text ← (readText fs p).mapError .io
    (Settings.read text).mapError .content
  else .ok initial

end Ferry.Settings
