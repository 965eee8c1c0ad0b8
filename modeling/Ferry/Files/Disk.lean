import Ferry.Files.System

/-!
What files lie on, as far as reading them goes. A file system is a disk on which reading never
fails midway; others may give less than was asked for, or fail after having given something.
-/
namespace Ferry.Files

/-- How disks of type `δ` answer: how long a file says it is, how it opens at a position, and what
comes when what is open is read, which is nothing at the end and never more than was asked for. A
read that is interrupted is made again, and its answer is what that comes to; where nobody makes it
again it is an error. -/
class Disk (δ : Type) where
  Stream : Type
  size : δ → Path → Except IoError Nat
  openAt : δ → Path → Nat → Except IoError Stream
  read : Stream → Nat → Except IoError (List UInt8 × Stream)
  length_le : ∀ {stream n bytes rest}, read stream n = .ok (bytes, rest) → bytes.length ≤ n

/-- Reads at most `block` bytes at a time until `n` bytes are there or nothing more comes. -/
def Disk.readBlocks {δ : Type} [Disk δ] (block n : Nat) (stream : Disk.Stream δ) :
    Except IoError (List UInt8) :=
  if n = 0 then .ok []
  else
    match Disk.read stream (min block n) with
    | .error e => .error e
    | .ok (bytes, rest) =>
      if bytes = [] then .ok []
      else (readBlocks block (n - bytes.length) rest).map (bytes ++ ·)
termination_by n
decreasing_by
  have := List.length_pos_iff.2 ‹bytes ≠ []›
  omega

/-- A file open for reading. A directory can be opened, but not read. -/
structure Handle where
  node : Node
  position : Nat
deriving DecidableEq, Repr

namespace Handle

/-- The first position that cannot be sought. -/
def seekLimit : Nat := 0x8000000000000000

/-- Moves to a position from the start, also beyond the end. -/
def seek (h : Handle) (position : Nat) : Except IoError Handle :=
  if seekLimit ≤ position then .error .invalidArgument else .ok { h with position }

/-- Reads up to `n` bytes; none at the end. -/
def read (h : Handle) (n : Nat) : Except IoError (List UInt8 × Handle) :=
  match h.node with
  | .file content =>
    let bytes := (content.drop h.position).take n
    .ok (bytes, { h with position := h.position + bytes.length })
  | .directory => .error .isADirectory
  | .link _ => .error .invalidArgument

theorem length_le_of_read {h h' : Handle} {n : Nat} {bytes : List UInt8}
    (came : h.read n = .ok (bytes, h')) : bytes.length ≤ n := by
  unfold read at came
  split at came
  · obtain ⟨rfl, -⟩ := Prod.mk.inj (Except.ok.inj came)
    exact List.length_take_le _ _
  · cases came
  · cases came

end Handle

/-- Opens what a path leads to for reading. -/
def FileSystem.openRead (fs : FileSystem) (p : Path) : Except IoError Handle := do
  let (_, e) ← fs.resolve p
  if e.isReadable then .ok ⟨e.node, 0⟩ else .error .permissionDenied

instance : Disk FileSystem where
  Stream := Handle
  size fs p := (fs.resolve p).map fun (_, e) => e.size
  openAt fs p position := do
    let h ← fs.openRead p
    h.seek position
  read := Handle.read
  length_le := Handle.length_le_of_read

end Ferry.Files
