import Ferry.Json.Record
import Ferry.ByteSize
import Ferry.Part.Size
import Ferry.WorkQueue

/-!
The settings of transfers, read from a JSON object in which every field may be missing. The two
sizes are byte counts or texts for people.
-/
namespace Ferry

open Ferry.Json

/-- The settings of transfers. -/
structure Settings where
  /-- Objects of at least this size are sent in parts. -/
  threshold : UInt64
  /-- The part size asked for. -/
  partSize : UInt64
  /-- The capacity of the work queue. -/
  queueCapacity : UInt64
  /-- The least urgent priority of the work queue. -/
  maxPriority : Int64
  /-- How many requests may run at once. -/
  maxRequests : UInt64
deriving DecidableEq, Repr

namespace Settings

/-- The most lists and objects inside each other in a value that has to be kept before its type is
known. -/
def maxDepth : Nat := 126

/-- What is wrong with a value that is neither a byte count nor a text. -/
def noSize : Problem := .invalid "data did not match any variant of untagged enum SizeValue"

/-- A size: a byte count or a text for people. The value is read as a whole before its type is
looked at. -/
def sizeCodec : Codec UInt64 where
  read d :=
    match d.flaw maxDepth with
    | some fault => .error (.fault fault)
    | none =>
      match d with
      | .number (.ok (.integer n)) =>
        if 0 ≤ n ∧ n.toNat < UInt64.size then .ok (UInt64.ofNat n.toNat) else .error noSize
      | .string (.ok s) =>
        match ByteSize.read s with
        | .ok n => .ok (UInt64.ofNat n)
        | .error e => .error (.invalid e.message)
      | _ => .error noSize
  write n := Codec.writeInt n.toNat

/-- The settings where none are given. -/
def initial : Settings := ⟨8 * 1024 * 1024, 8 * 1024 * 1024, 1000, 20, 10⟩

def codec : Codec Settings :=
  (Codec.record "TransferConfig"
    [.default "multipart_threshold" sizeCodec initial.threshold,
      .default "multipart_chunksize" sizeCodec initial.partSize,
      .default "max_queue_size" (.word "usize") initial.queueCapacity,
      .default "max_priority" (.signedWord "i64") initial.maxPriority,
      .default "max_concurrent_requests" (.word "usize") initial.maxRequests]).iso
    (fun (a, b, c, d, e, ()) => ⟨a, b, c, d, e⟩)
    fun s => (s.threshold, s.partSize, s.queueCapacity, s.maxPriority, s.maxRequests, ())

/-- Reads settings from a JSON text. -/
def read (text : String) : Except Problem Settings := codec.readText (.ofString text)

/-- Whether an object of `total` bytes is sent in parts. -/
def sendsInParts (s : Settings) (total : Nat) : Bool := s.threshold.toNat ≤ total

/-- The part size for an object of `total` bytes. -/
def partSizeFor (s : Settings) (total : Nat) : Except Part.TooLarge Nat :=
  Part.size total s.partSize.toNat

/-- An empty work queue as the settings ask for it. -/
def workQueue (α : Type) (s : Settings) : WorkQueue α :=
  .empty s.queueCapacity.toNat s.maxPriority.toInt

end Settings
end Ferry
