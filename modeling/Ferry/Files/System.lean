import Ferry.Files.Error
import Ferry.Files.Path

/-!
A file system as a value: what stands at each place below the root, and how a path leads to a
place. It is seen by one user, to whom the owner's part of a mode applies where the entry is the
user's own, and elsewhere the part for all others. The root is the directory from which relative
paths start.
-/
namespace Ferry.Files

/-- A place below the root, by the names that lead there. -/
abbrev Place := List Name

/-- What stands at a place. -/
inductive Node
  | file (content : List UInt8)
  | directory
  | link (target : Path)
deriving DecidableEq, Repr

/-- A time as files keep it: seconds since 1970 and nanoseconds, the latter counted forwards. -/
structure FileTime where
  secs : Int
  nanos : Nat
deriving DecidableEq, Repr

/-- An entry: what it is, its permission bits, whether it is the user's own, and its times. -/
structure Entry where
  node : Node
  mode : Nat
  isOwned : Bool
  accessed : FileTime
  modified : FileTime
deriving DecidableEq, Repr

namespace Entry

/-- The bits of a mode that apply to the user. -/
def bits (e : Entry) : Nat := if e.isOwned then e.mode / 64 % 8 else e.mode % 8

def isReadable (e : Entry) : Bool := e.bits / 4 % 2 = 1

def isWritable (e : Entry) : Bool := e.bits / 2 % 2 = 1

/-- Whether what a directory holds can be reached. -/
def isSearchable (e : Entry) : Bool := e.bits % 2 = 1

/-- The size that a directory reports. -/
def directorySize : Nat := 4096

/-- The size that an entry reports. -/
def size (e : Entry) : Nat :=
  match e.node with
  | .file content => content.length
  | .directory => directorySize
  | .link target => target.bytes.length

end Entry

/-- A file system: the entries with their places. The root is a directory. -/
structure FileSystem where
  entries : List (Place × Entry)
deriving DecidableEq, Repr

namespace FileSystem

/-- The time of what nobody gave a time. -/
def noTime : FileTime := ⟨0, 0⟩

/-- A new directory, open to its owner. -/
def newDirectory : Entry := ⟨.directory, 0o755, true, noTime, noTime⟩

/-- Nothing but the root. -/
def empty : FileSystem := ⟨[([], newDirectory)]⟩

/-- The entry at a place. -/
def at? (fs : FileSystem) (place : Place) : Option Entry := fs.entries.lookup place

/-- The file system with an entry set at a place. -/
def set (fs : FileSystem) (place : Place) (e : Entry) : FileSystem :=
  match fs.at? place with
  | none => ⟨fs.entries ++ [(place, e)]⟩
  | some _ => ⟨fs.entries.map fun (p, old) => if p = place then (p, e) else (p, old)⟩

/-- The file system without the entry at a place. -/
def erase (fs : FileSystem) (place : Place) : FileSystem :=
  ⟨fs.entries.filter fun (p, _) => p ≠ place⟩

theorem lookup_map_replace (place : Place) (e : Entry) (other : Place) :
    ∀ l : List (Place × Entry),
      (l.map fun (p, old) => if p = place then (p, e) else (p, old)).lookup other =
        if other = place then (l.lookup other).map fun _ => e else l.lookup other
  | [] => by simp
  | (p, old) :: l => by
    have ih := lookup_map_replace place e other l
    by_cases same : other = p
    · subst same
      by_cases h : other = place <;> simp [h]
    · have apart : (other == p) = false := beq_false_of_ne same
      by_cases h : p = place
      · simp only [List.map_cons, if_pos h, List.lookup_cons, apart]
        exact ih
      · simp only [List.map_cons, if_neg h, List.lookup_cons, apart]
        exact ih

theorem at?_set (fs : FileSystem) (place : Place) (e : Entry) (other : Place) :
    (fs.set place e).at? other = if other = place then some e else fs.at? other := by
  unfold set
  split
  · rename_i missing
    unfold at? at missing ⊢
    rw [List.lookup_append]
    by_cases h : other = place
    · subst h
      simp [missing]
    · simp [List.lookup_cons, beq_false_of_ne h, h]
  · rename_i old there
    unfold at? at there ⊢
    rw [lookup_map_replace]
    by_cases h : other = place
    · subst h
      simp [there]
    · simp [h]

/-- The most bytes of a name. -/
def maxName : Nat := 255

/-- The most bytes of a path. -/
def maxPath : Nat := 4095

/-- The most links that one path may lead through. -/
def maxLinks : Nat := 40

/-- Whether a place is a directory whose content can be reached. -/
def checkSearch (fs : FileSystem) (place : Place) : Except IoError Unit :=
  match fs.at? place with
  | none => .error .notFound
  | some e =>
    if e.node ≠ .directory then .error .notADirectory
    else if e.isSearchable then .ok ()
    else .error .permissionDenied

/-- Where a path leads: to an entry, or to a free name in a directory. -/
inductive Found
  | entry (place : Place)
  | vacant (directory : Place) (name : Name)
deriving DecidableEq, Repr

/-- Follows steps from a directory. Every name is looked up in a directory that can be searched;
whatever has steps after it, be it only a slash, has to be a directory; links are followed, at most
`links` of them. -/
def walk (fs : FileSystem) (links : Nat) (place : Place) : List Name → Except IoError Found
  | [] => .ok (.entry place)
  | n :: names =>
    if n.isEmpty then fs.walk links place names
    else do
      fs.checkSearch place
      if n = here then fs.walk links place names
      else if n = above then fs.walk links place.dropLast names
      else if maxName < n.length then .error .nameTooLong
      else match fs.at? (place ++ [n]) with
        | none => if names.isEmpty then .ok (.vacant place n) else .error .notFound
        | some e => match e.node with
          | .directory => fs.walk links (place ++ [n]) names
          | .file _ => if names.isEmpty then .ok (.entry (place ++ [n])) else .error .notADirectory
          | .link target =>
            match links with
            | 0 => .error .linkLoop
            | links + 1 =>
              fs.walk links (if target.isAbsolute then [] else place) (target.steps ++ names)
termination_by names => (links, names.length)

/-- Whether a path can be handed to the operating system at all. -/
def checkPath (p : Path) : Except IoError Unit :=
  if p.bytes.contains 0 then .error .zeroInPath
  else if p.bytes.isEmpty then .error .notFound
  else if maxPath < p.bytes.length then .error .nameTooLong
  else .ok ()

/-- Where a path leads, links at its end included. -/
def find (fs : FileSystem) (p : Path) : Except IoError Found := do
  checkPath p
  fs.walk maxLinks [] p.steps

/-- The entry that a path leads to, with its place. -/
def resolve (fs : FileSystem) (p : Path) : Except IoError (Place × Entry) := do
  match ← fs.find p with
  | .vacant _ _ => .error .notFound
  | .entry place =>
    match fs.at? place with
    | some e => .ok (place, e)
    | none => .error .notFound

/-- Whether a path leads to a directory. -/
def isDirectory (fs : FileSystem) (p : Path) : Bool :=
  match fs.resolve p with
  | .ok (_, e) => e.node = .directory
  | .error _ => false

/-- Whether a path leads to anything that can be seen. -/
def exists? (fs : FileSystem) (p : Path) : Bool := (fs.resolve p).toOption.isSome

/-- The directory in which the last name of a path stands, and the name, links at the end not
followed. None where the path ends in no name of its own. -/
def lastName (fs : FileSystem) (p : Path) : Except IoError (Place × Option Name) := do
  checkPath p
  let names := p.steps.filter fun n => !n.isEmpty
  match ← fs.walk maxLinks [] (names.dropLast ++ [[]]) with
  | .vacant _ _ => .error .notFound
  | .entry place =>
    match names.getLast? with
    | none => .ok (place, none)
    | some n => do
      fs.checkSearch place
      .ok (place, if n = here ∨ n = above then none else some n)

/-- Puts a new entry where a path says. Anything that stands there already, a link included, is in
the way; the directory has to be writable. -/
def create (fs : FileSystem) (p : Path) (e : Entry) : Except IoError FileSystem := do
  match ← fs.lastName p with
  | (_, none) => .error .alreadyExists
  | (place, some n) =>
    if maxName < n.length then .error .nameTooLong
    else if (fs.at? (place ++ [n])).isSome then .error .alreadyExists
    else match fs.at? place with
      | none => .error .notFound
      | some directory =>
        if directory.isWritable then .ok (fs.set (place ++ [n]) e) else .error .permissionDenied

/-- Makes a directory. -/
def makeDirectory (fs : FileSystem) (p : Path) : Except IoError FileSystem :=
  fs.create p newDirectory

/-- Makes a link. -/
def makeLink (fs : FileSystem) (p target : Path) : Except IoError FileSystem :=
  fs.create p ⟨.link target, 0o777, true, noTime, noTime⟩

/-- Writes a file, new or in place of its content, with the given times. Links are followed, also
to where nothing stands yet. -/
def writeFile (fs : FileSystem) (p : Path) (content : List UInt8) (time : FileTime) :
    Except IoError FileSystem := do
  match ← fs.find p with
  | .entry place =>
    match fs.at? place with
    | none => .error .notFound
    | some e =>
      if e.node = .directory then .error .isADirectory
      else if e.isWritable then .ok (fs.set place ⟨.file content, e.mode, e.isOwned, time, time⟩)
      else .error .permissionDenied
  | .vacant place n =>
    match fs.at? place with
    | none => .error .notFound
    | some directory =>
      if directory.isWritable then
        .ok (fs.set (place ++ [n]) ⟨.file content, 0o644, true, time, time⟩)
      else .error .permissionDenied

/-- Removes a file or link. -/
def removeFile (fs : FileSystem) (p : Path) : Except IoError FileSystem := do
  match ← fs.lastName p with
  | (_, none) => .error .isADirectory
  | (place, some n) =>
    if maxName < n.length then .error .nameTooLong
    else
      match fs.at? (place ++ [n]), fs.at? place with
      | some e, some directory =>
        if e.node = .directory then .error .isADirectory
        else if directory.isWritable then .ok (fs.erase (place ++ [n]))
        else .error .permissionDenied
      | _, _ => .error .notFound

/-- Sets the permission bits of what a path leads to, which only the owner may do. -/
def setMode (fs : FileSystem) (p : Path) (mode : Nat) : Except IoError FileSystem := do
  let (place, e) ← fs.resolve p
  if e.isOwned then .ok (fs.set place { e with mode }) else .error .notPermitted

/-- Everything below the root whose directories can be read, a line each: what it is, its path,
and the size of a file. The lines are in ascending order. -/
def listing (fs : FileSystem) : List String :=
  let isVisible (place : Place) : Bool :=
    (List.range place.length).all fun n =>
      match fs.at? (place.take n) with
      | some e => e.isReadable
      | none => false
  let line (place : Place) (e : Entry) : String :=
    let path := (Path.ofSteps false place).shown
    match e.node with
    | .directory => "dir " ++ path
    | .link _ => "link " ++ path
    | .file content => "file " ++ path ++ " " ++ toString content.length
  let seen := fs.entries.filter fun (place, _) => !place.isEmpty && isVisible place
  (seen.map fun (place, e) => line place e).mergeSort (fun a b => a ≤ b)

end FileSystem
end Ferry.Files
