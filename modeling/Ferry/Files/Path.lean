import Ferry.Text.Cut
import Ferry.Text.Utf8

/-!
Paths as byte strings, taken apart without looking at any file: names between slashes, the trail
of beginnings that end in a name, parents, extensions, and one path seen from another.
-/
namespace Ferry.Files

open Ferry.Text

/-- A name between slashes. -/
abbrev Name := List UInt8

/-- A path as it was given. -/
structure Path where
  bytes : List UInt8
deriving DecidableEq, Repr

/-- The path of a string. -/
def Path.ofString (s : String) : Path := ⟨Utf8.bytes s⟩

/-- The name of the directory itself. -/
def here : Name := [46]

/-- The name of the directory above. -/
def above : Name := [46, 46]

/-- The slash. -/
def slash : UInt8 := 47

namespace Path

/-- A path as text, U+FFFD in place of what is no text. -/
def shown (p : Path) : String := Utf8.lossy p.bytes

/-- Whether a path starts at the root. -/
def isAbsolute (p : Path) : Bool := p.bytes.head? = some slash

/-- What stands between the slashes, after the one of the root. -/
def steps (p : Path) : List Name :=
  pieces slash (if p.isAbsolute then p.bytes.drop 1 else p.bytes)

/-- The path of the given steps from the root or from where one is. -/
def ofSteps (absolute : Bool) (names : List Name) : Path :=
  ⟨(if absolute then [slash] else []) ++ join slash names⟩

/-- Whether a step goes nowhere: between two slashes, or the directory itself. -/
def isVoid (n : Name) : Bool := n.isEmpty || n = here

/-- The beginnings of a list of steps that end in a step which goes somewhere, shortest first.
`passed` holds the steps before. -/
def beginnings (passed : List Name) : List Name → List (List Name)
  | [] => []
  | n :: names =>
    if isVoid n then beginnings (passed ++ [n]) names
    else (passed ++ [n]) :: beginnings (passed ++ [n]) names

/-- The beginnings of a path that end in a name, shortest first. A relative path may name the
directory it starts from, by a dot at its front. -/
def trail (p : Path) : List Path :=
  let names := p.steps
  let named := match names with
    | n :: rest =>
      if !p.isAbsolute && n = here then [here] :: beginnings [here] rest else beginnings [] names
    | [] => []
  named.map (ofSteps p.isAbsolute)

/-- The path without its last name; none where it has no name. -/
def parent? (p : Path) : Option Path :=
  match p.trail.reverse with
  | [] => none
  | [_] => some (ofSteps p.isAbsolute [])
  | _ :: q :: _ => some q

/-- The last name of a path, unless it means the directory itself or the one above. -/
def fileName? (p : Path) : Option Name :=
  match (p.steps.filter fun n => !isVoid n).getLast? with
  | some n => if n = above then none else some n
  | none => none

/-- What follows the last dot of the last name. A dot at its front does not count. -/
def extension? (p : Path) : Option Name :=
  p.fileName?.bind fun n =>
    (cutFirst 46 n.reverse).bind fun (after, before) =>
      if before.isEmpty then none else some after.reverse

/-- Follows steps from a place below the root, without looking at any file: a step up leads to the
place above, and from the root nowhere else. -/
def follow (place : List Name) : List Name → List Name
  | [] => place
  | n :: names =>
    if isVoid n then follow place names
    else if n = above then follow place.dropLast names
    else follow (place ++ [n]) names

/-- The place that a path means, seen from the directory `cwd`. An empty path means none. -/
def place? (cwd : List Name) (p : Path) : Option (List Name) :=
  if p.bytes.isEmpty then none else some (follow (if p.isAbsolute then [] else cwd) p.steps)

/-- How many names two places have in common at their front. -/
def commonLength : List Name → List Name → Nat
  | a :: as, b :: bs => if a = b then commonLength as bs + 1 else 0
  | _, _ => 0

/-- The steps from one directory to another: up to the last one above both, and down again; the
directory itself where there are none. -/
def stepsBetween (start dir : List Name) : List Name :=
  let common := commonLength dir start
  let names := List.replicate (start.length - common) above ++ dir.drop common
  if names.isEmpty then [here] else names

/-- A path as seen from the directory `start`: the steps to its directory, and its name. The root
has no name and is shown as it is; a path or start that means no place leaves the path alone. -/
def relativeTo (cwd : List Name) (p start : Path) : Path :=
  match p.place? cwd, start.place? cwd with
  | some place, some origin =>
    match place.getLast? with
    | none => ofSteps true []
    | some base =>
      let names := stepsBetween origin place.dropLast
      ofSteps false (names ++ [base])
  | _, _ => p

end Path
end Ferry.Files
