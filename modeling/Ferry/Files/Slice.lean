import Ferry.Files.Disk
import Ferry.Digest.Base64
import Ferry.Digest.Sha256

/-!
A slice of a file as a stream that can be rewound. No file stays open between two operations: each
opens the file anew, at the place where the last one ended. The size of a slice is settled when it
is made; the file may change afterwards, and the disk it lies on may fail.
-/
namespace Ferry.Files

/-- Where to seek: from the start, from where one is, or from the end. -/
inductive Whence
  | start (offset : Nat)
  | current (delta : Int)
  | fromEnd (delta : Int)
deriving DecidableEq, Repr

/-- A slice of a file: `size` bytes from `start` on, of which `offset` have been read. -/
structure Slice where
  path : Path
  start : Nat
  size : Nat
  offset : Nat
deriving DecidableEq, Repr

variable {δ : Type} [Disk δ]

namespace Slice

/-- The slice of `size` bytes from `start` on, less what lies beyond the end of the file. -/
def of (disk : δ) (path : Path) (start size : Nat) : Except IoError Slice :=
  (Disk.size disk path).map fun fileSize => ⟨path, start, min size (fileSize - start), 0⟩

/-- Whether the slice covers no bytes. -/
def isEmpty (s : Slice) : Bool := s.size = 0

/-- What has not been read yet. -/
def remaining (s : Slice) : Nat := s.size - s.offset

/-- The file, open where the slice is to be read next. -/
def opened (s : Slice) (disk : δ) : Except IoError (Disk.Stream δ) :=
  Disk.openAt disk s.path (s.start + s.offset)

/-- The bytes read at a time where nobody gives a buffer for them. -/
def blockSize : Nat := 8192

/-- The slice after reading some bytes; the same slice where reading failed. -/
def advance (s : Slice) (result : Except IoError (List UInt8)) :
    Except IoError (List UInt8) × Slice :=
  match result with
  | .ok bytes => (result, { s with offset := s.offset + bytes.length })
  | .error _ => (result, s)

/-- Reads up to `amount` bytes, or all that remain. Where nothing is asked for or nothing remains
the file is left alone. -/
def readBytes (s : Slice) (disk : δ) (amount : Option Nat) : Except IoError (List UInt8) × Slice :=
  let n := match amount with
    | some a => min a s.remaining
    | none => s.remaining
  if n = 0 then (.ok [], s) else s.advance do Disk.readBlocks blockSize n (← s.opened disk)

/-- Fills a buffer of `n` bytes as far as bytes remain, by as many reads as it takes. -/
def fill (s : Slice) (disk : δ) (n : Nat) : Except IoError (List UInt8) × Slice :=
  let n := min n s.remaining
  if n = 0 then (.ok [], s) else s.advance do Disk.readBlocks n n (← s.opened disk)

/-- Reads to the end of the slice. -/
def readToEnd (s : Slice) (disk : δ) : Except IoError (List UInt8) × Slice :=
  s.fill disk s.remaining

/-- Moves to an offset; one beyond the end counts as the end. -/
def seekTo (s : Slice) (offset : Nat) : Slice := { s with offset := min offset s.size }

theorem offset_seekTo_le (s : Slice) (offset : Nat) : (s.seekTo offset).offset ≤ s.size :=
  Nat.min_le_right _ _

/-- Moves relative to the start, the offset or the end. A place before the start is refused. -/
def seek (s : Slice) (w : Whence) : Except IoError Nat × Slice :=
  let target : Int := match w with
    | .start offset => offset
    | .current delta => s.offset + delta
    | .fromEnd delta => s.size + delta
  if target < 0 then (.error (.refused "seek before the start of the view"), s)
  else
    let moved := s.seekTo target.toNat
    (.ok moved.offset, moved)

/-- The SHA-256 digest of the whole slice in Base64. The slice is rewound first, and it is so
afterwards. -/
def checksum (s : Slice) (disk : δ) : Except IoError String × Slice :=
  let s := { s with offset := 0 }
  let bytes := do Disk.readBlocks blockSize s.size (← s.opened disk)
  (bytes.map fun bytes => String.ofList (Digest.base64 (Digest.sha256 bytes)), s)

end Slice

/-- A slice that can only be read, not moved. -/
structure OneWay where
  slice : Slice
deriving DecidableEq, Repr

namespace OneWay

/-- Fills a buffer of `n` bytes. -/
def fill (o : OneWay) (disk : δ) (n : Nat) : Except IoError (List UInt8) × OneWay :=
  let (result, slice) := o.slice.fill disk n
  (result, ⟨slice⟩)

/-- Reads to the end. -/
def readToEnd (o : OneWay) (disk : δ) : Except IoError (List UInt8) × OneWay :=
  let (result, slice) := o.slice.readToEnd disk
  (result, ⟨slice⟩)

end OneWay
end Ferry.Files
