import Ferry.ContentType
import Ferry.Files.Parents
import Ferry.Files.Times
import Ferry.Outcome
import Ferry.Transfer.Observer

/-!
The world in which the observers of the copy commands work: local files, the channel on which
reports travel to the user, and the notes that recording observers leave.
-/
namespace Ferry.Transfer

open Ferry.Files Ferry.Time

/-- A channel of reports. What is sent after the receiver has gone is lost. -/
structure Channel where
  isOpen : Bool
  waiting : List Outcome
  lost : List Outcome
deriving DecidableEq, Repr

namespace Channel

def empty : Channel := ⟨true, [], []⟩

def send (c : Channel) (o : Outcome) : Channel :=
  if c.isOpen then { c with waiting := c.waiting ++ [o] } else { c with lost := c.lost ++ [o] }

/-- Takes all reports off the channel. -/
def receive (c : Channel) : List Outcome × Channel := (c.waiting, { c with waiting := [] })

/-- The receiver goes, with the reports that it has not taken. -/
def close (c : Channel) : Channel :=
  { isOpen := false, waiting := [], lost := c.lost ++ c.waiting }

end Channel

/-- The world of the observers. -/
structure World where
  files : FileSystem
  reports : Channel
  notes : List String

/-- An empty world. -/
def World.empty : World := ⟨.empty, .empty, []⟩

namespace Observer

/-- An observer with a hook for queued transfers only. -/
def whenQueued {ω : Type} (hook : Hook ω) : Observer ω := ⟨some hook, none⟩

/-- An observer with a hook for done transfers only. -/
def whenDone {ω : Type} (hook : Hook ω) : Observer ω := ⟨none, some hook⟩

/-- An observer without hooks. -/
def idle {ω : Type} : Observer ω := ⟨none, none⟩

/-- Sets the size of the transfer, known beforehand. -/
def size {ω : Type} (n : Nat) : Observer ω :=
  whenQueued (.of fun scene => (.ok (), [.setSize n], scene.world))

/-- The call that sets the content type, if there is one. -/
def setContentType (contentType : Option String) : List Call :=
  match contentType with
  | some t => [.setParam "ContentType" t]
  | none => []

/-- Sets the content type by the name of the local file, if all of its path is text. -/
def uploadContentType {ω : Type} : Observer ω :=
  whenQueued (.of fun scene =>
    let contentType := do
      let path ← scene.transfer.localFile
      let _ ← Utf8.decode? path.bytes
      contentType? path
    (.ok (), setContentType contentType, scene.world))

/-- Sets the content type by the key of the object that is copied. -/
def copyContentType {ω : Type} : Observer ω :=
  whenQueued (.of fun scene =>
    let contentType := do
      let source ← scene.transfer.source
      contentType? (.ofString source.key)
    (.ok (), setContentType contentType, scene.world))

/-- Makes the missing directories above the local file. -/
def createDirectories : Observer World :=
  whenQueued (.of fun scene =>
    match scene.transfer.localFile with
    | none => (.ok (), [], scene.world)
    | some path =>
      let (result, files) := scene.world.files.createParents path
      (result.mapError fun e => .directory (path.parent?.getD ⟨[]⟩) e, [],
        { scene.world with files }))

/-- Sets the times of the local file to a given one. The reason is given where that is not
possible. -/
def restoreTime (files : FileSystem) (path : Option Path) (time : Option Instant) :
    Except String FileSystem :=
  match path, time with
  | none, _ => .error "no local file to update"
  | some _, none => .error "no last modified time was provided"
  | some path, some time => (files.setTimes path time.secs).mapError TimesError.message

/-- The warning that the times of a file could not be set. -/
def timeWarning (shown reason : String) : Outcome :=
  .warningAbout shown
    ("Successfully downloaded " ++ shown ++ " but was unable to update the last modified time. "
      ++ reason) false

/-- Sets the times of the local file after a successful transfer. Where that is not possible a
warning is sent, and the transfer counts as successful all the same. -/
def lastModified (time : Option Instant) : Observer World :=
  whenDone (Endings.hook
    { Endings.nothing with
      onSuccess := .of fun scene =>
        match restoreTime scene.world.files scene.transfer.localFile time with
        | .ok files => (.ok (), [], { scene.world with files })
        | .error reason =>
          let shown := match scene.transfer.localFile with
            | some path => path.shown
            | none => scene.transfer.key
          (.ok (), [],
            { scene.world with reports := scene.world.reports.send (timeWarning shown reason) }) })

/-- Leaves a note of an event and fails if it is told to. -/
def note (name event : String) (fails : Bool) : Hook World := .of fun scene =>
  let note := name ++ ":" ++ event ++ ":" ++ scene.transfer.key
  (if fails then .error (.hook (name ++ " " ++ event)) else .ok (), [],
    { scene.world with notes := scene.world.notes ++ [note] })

/-- Leaves notes of the way in which transfers end. -/
def noteEndings (name : String) (fails : Bool) : Observer World :=
  whenDone (Endings.hook
    { onSuccess := note name "success" fails
      onFailure := fun failure => note name ("failure(" ++ failure.message ++ ")") fails })

/-- An observer of endings to whom none of them matters. -/
def silent {ω : Type} : Observer ω := whenDone Endings.nothing.hook

end Observer
end Ferry.Transfer
