/-!
The size of the parts in which an object is sent. The service takes a bounded number of parts of
bounded size; a size asked for that needs too many parts is doubled until it does not.
-/
namespace Ferry.Part

/-- A mebibyte. -/
def mebi : Nat := 1024 * 1024

/-- The most parts that one object may have. -/
def maxCount : Nat := 10000

/-- The largest part, and the largest object sent in one piece: 5 GiB. -/
def maxSize : Nat := 5 * 1024 * mebi

/-- The smallest part, the last one apart: 5 MiB. -/
def minSize : Nat := 5 * mebi

/-- The largest object: 5 TiB. -/
def maxTotal : Nat := 5 * 1024 * 1024 * mebi

/-- The largest 64-bit count. -/
def maxWord : Nat := UInt64.size - 1

/-- An object too large to be sent. -/
structure TooLarge where
  total : Nat
deriving DecidableEq, Repr

def TooLarge.message (e : TooLarge) : String :=
  "file size of " ++ toString e.total ++ " bytes exceeds the maximum upload size of "
    ++ toString maxTotal ++ " bytes"

/-- How many parts of `size` bytes cover `total` bytes. -/
def count (total size : Nat) : Nat := (total + size - 1) / size

theorem count_le_iff {total size n : Nat} (pos : 0 < size) :
    count total size ≤ n ↔ total ≤ n * size := by
  unfold count
  rw [← Nat.lt_succ_iff, Nat.div_lt_iff_lt_mul pos, Nat.succ_mul]
  omega

/-- Twice a size, or the largest 64-bit count. -/
def double (size : Nat) : Nat := min (2 * size) maxWord

theorem lt_of_lt_count {total size : Nat} (h : maxCount < count total size) : size < total := by
  rcases Nat.eq_zero_or_pos size with rfl | pos
  · simp [count] at h
  · have := Nat.div_mul_le_self (total + size - 1) size
    have : (maxCount + 1) * size ≤ count total size * size := Nat.mul_le_mul_right _ h
    simp only [count, maxCount] at *
    omega

/-- Doubles a size as long as it needs too many parts and doubling makes it larger. -/
def widen (total size : Nat) : Nat :=
  if maxCount < count total size ∧ size < double size then widen total (double size) else size
termination_by total - size
decreasing_by
  rename_i h
  have := lt_of_lt_count h.1
  omega

/-- The part size for `total` bytes when `requested` is asked for. -/
def size (total requested : Nat) : Except TooLarge Nat :=
  if maxTotal < total then .error ⟨total⟩
  else .ok (min (widen total (max requested minSize)) maxSize)

end Ferry.Part
