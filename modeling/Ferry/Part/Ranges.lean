import Ferry.Part.Size

/-! The division of an object into consecutive byte ranges of one length, the last one shorter. -/
namespace Ferry.Part

/-- A range of bytes. -/
structure Range where
  start : Nat
  length : Nat
deriving DecidableEq, Repr

/-- The distance between the starts of ranges: the part size, or everything where that is zero. -/
def step (total size : Nat) : Nat := if size = 0 then max total 1 else size

/-- How many ranges there are. -/
def rangeCount (total size : Nat) : Nat := count total (step total size)

/-- The `i`-th range. -/
def range (total size i : Nat) : Range :=
  let start := i * step total size
  ⟨start, min (step total size) (total - start)⟩

/-- The first `limit` ranges, or all where there are no more. -/
def leadingRanges (limit total size : Nat) : List Range :=
  (List.range (min limit (rangeCount total size))).map (range total size)

/-- All ranges, in order. -/
def ranges (total size : Nat) : List Range :=
  (List.range (rangeCount total size)).map (range total size)

end Ferry.Part
