import Ferry.Part.Size

/-!
What the part size is good for. Of an object that can be sent, the size found lies between the
smallest and the largest part and divides the object into no more parts than it may have
(`size_spec`).
-/
namespace Ferry.Part

variable {total size : Nat}

/-- As long as there are too many parts doubling makes them larger, since the doubled size stays
far below the largest word. -/
theorem lt_double (sendable : total ≤ maxTotal) (pos : 0 < size)
    (many : maxCount < count total size) : size < double size := by
  have := lt_of_lt_count many
  have far : 2 * maxTotal ≤ maxWord := by decide
  have : double size = 2 * size := Nat.min_eq_left (by omega)
  omega

theorem le_widen (total size : Nat) : size ≤ widen total size := by
  fun_induction widen total size with
  | case1 size h ih => omega
  | case2 size h => exact Nat.le_refl size

/-- A size that needs no more parts than there may be is not doubled. -/
theorem widen_eq (few : count total size ≤ maxCount) : widen total size = size := by
  rw [widen]
  exact if_neg fun many => absurd few (Nat.not_le.2 many.1)

/-- The doubling ends for want of too many parts, never for want of larger sizes. -/
theorem count_widen_le (sendable : total ≤ maxTotal) (pos : 0 < size) :
    count total (widen total size) ≤ maxCount := by
  fun_induction widen total size with
  | case1 size h ih => exact ih (by omega)
  | case2 size h =>
    rcases Nat.lt_or_ge maxCount (count total size) with many | few
    · exact absurd ⟨many, lt_double sendable pos many⟩ h
    · exact few

/-- Cutting a size at the largest part keeps the number of parts allowed. -/
theorem count_min_le (sendable : total ≤ maxTotal)
    (few : count total size ≤ maxCount) : count total (min size maxSize) ≤ maxCount := by
  rcases Nat.le_total size maxSize with small | large
  · rw [Nat.min_eq_left small]
    exact few
  · have enough : maxTotal ≤ maxCount * maxSize := by decide
    rw [Nat.min_eq_right large, count_le_iff (by decide)]
    omega

/-- The part size for an object that can be sent. -/
theorem size_spec (sendable : total ≤ maxTotal) (requested : Nat) :
    ∃ c, Part.size total requested = .ok c ∧ minSize ≤ c ∧ c ≤ maxSize ∧
      count total c ≤ maxCount := by
  have least : minSize ≤ max requested minSize := Nat.le_max_right _ _
  have wide := le_widen total (max requested minSize)
  have pos : 0 < minSize := by decide
  have ordered : minSize ≤ maxSize := by decide
  refine ⟨_, if_neg (Nat.not_lt.2 sendable), ?_, Nat.min_le_right _ _, ?_⟩
  · exact Nat.le_min.2 ⟨by omega, ordered⟩
  · exact count_min_le sendable (count_widen_le sendable (by omega))

end Ferry.Part
