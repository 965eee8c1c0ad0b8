import Ferry.Files.Error

/-!
Sinks for bytes. A sink may take fewer bytes than it is given; writing everything means to offer
what is left again until nothing is, or the sink takes nothing.
-/
namespace Ferry.Console

open Ferry.Files

/-- How a sink with states of type `σ` answers: how many bytes it takes, and whether it can be
flushed. A write that is interrupted is made again, and its answer is what that comes to. -/
structure Sink (σ : Type) where
  write : σ → List UInt8 → Except IoError Nat × σ
  flush : σ → Except IoError Unit × σ

namespace Sink

variable {σ : Type}

/-- Writes all bytes. `tries` bounds the number of writes; one for each byte suffices. -/
def writeLoop (k : Sink σ) : Nat → σ → List UInt8 → Except IoError Unit × σ
  | _, s, [] => (.ok (), s)
  | 0, s, _ => (.error .noRoom, s)
  | tries + 1, s, bytes =>
    match k.write s bytes with
    | (.error e, s) => (.error e, s)
    | (.ok 0, s) => (.error .noRoom, s)
    | (.ok n, s) => k.writeLoop tries s (bytes.drop n)

/-- Writes all bytes. -/
def writeAll (k : Sink σ) (s : σ) (bytes : List UInt8) : Except IoError Unit × σ :=
  k.writeLoop bytes.length s bytes

end Sink

/-- A buffer of a fixed number of bytes, or of any number. -/
structure Buffer where
  capacity : Option Nat
  written : List UInt8
deriving DecidableEq, Repr

/-- How many of `n` bytes a buffer takes. -/
def Buffer.takes (b : Buffer) (n : Nat) : Nat :=
  match b.capacity with
  | some capacity => min n (capacity - b.written.length)
  | none => n

/-- A buffer as a sink: it takes what fits. -/
def Buffer.sink : Sink Buffer where
  write b bytes :=
    let n := b.takes bytes.length
    (.ok n, { b with written := b.written ++ bytes.take n })
  flush b := (.ok (), b)

end Ferry.Console
