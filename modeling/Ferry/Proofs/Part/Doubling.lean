import Ferry.Proofs.Part.Size
import Mathlib.Algebra.Group.Nat.Defs
import Mathlib.Logic.Function.Iterate
import Mathlib.Order.Bounds.Basic

/-!
How often a part size is doubled. For an object that can be sent, the doubling stops after a number
of rounds, the least after which there are no more parts than there may be, and no round reaches the
largest word (`widen_rounds`). The part size is what these rounds make of the size asked for, cut at
the largest part (`part_size_is_least_doubling`).

All that is said of the size follows from the rounds being least: it grows with the object, and
it is the size asked for exactly where that one will do.
-/
namespace Ferry.Part

variable {total total' size requested : Nat}

/-- The first of the sizes that rounds of doubling go through and that needs no more parts than
there may be comes after `k` rounds. -/
structure Rounds (total size k : Nat) : Prop where
  /-- The rounds end, there and not before. -/
  ends : IsLeast {j | count total (double^[j] size) ≤ maxCount} k
  /-- No round is cut short by the largest word. -/
  uncut : ∀ j ≤ k, double^[j] size = size * 2 ^ j
  least : IsLeast {j | count total (size * 2 ^ j) ≤ maxCount} k

theorem double_eq (sendable : total ≤ maxTotal) (many : maxCount < count total size) :
    double size = size * 2 := by
  have := lt_of_lt_count many
  have far : 2 * maxTotal ≤ maxWord := by decide
  unfold double
  omega

/-- A size that will do is not doubled. -/
theorem Rounds.none (few : count total size ≤ maxCount) : Rounds total size 0 where
  ends := ⟨few, fun _ _ => Nat.zero_le _⟩
  uncut j hj := by rw [Nat.le_zero.1 hj, Nat.pow_zero, Nat.mul_one]; rfl
  least := ⟨by simpa using few, fun _ _ => Nat.zero_le _⟩

/-- One round before the others. -/
theorem Rounds.cons {k : Nat} (sendable : total ≤ maxTotal) (many : maxCount < count total size)
    (rest : Rounds total (double size) k) : Rounds total size (k + 1) := by
  have twice := double_eq sendable many
  have shift : ∀ j, double size * 2 ^ j = size * 2 ^ (j + 1) := fun j => by
    rw [twice, Nat.mul_assoc, ← Nat.pow_succ']
  refine ⟨⟨rest.ends.1, fun j few => ?_⟩, fun j hj => ?_, ⟨?_, fun j few => ?_⟩⟩
  · cases j with
    | zero => exact absurd few (Nat.not_le.2 many)
    | succ j => exact Nat.succ_le_succ (rest.ends.2 few)
  · cases j with
    | zero => rw [Nat.pow_zero, Nat.mul_one]; rfl
    | succ j =>
      rw [Function.iterate_succ_apply, rest.uncut j (Nat.le_of_succ_le_succ hj), shift]
  · have few : count total (double size * 2 ^ k) ≤ maxCount := rest.least.1
    rwa [shift] at few
  · cases j with
    | zero => exact absurd few (Nat.not_le.2 (by simpa using many))
    | succ j =>
      refine Nat.succ_le_succ (rest.least.2 ?_)
      show count total (double size * 2 ^ j) ≤ maxCount
      rw [shift]
      exact few

/-- The doubling is what its rounds make of the size. -/
theorem widen_rounds (sendable : total ≤ maxTotal) (pos : 0 < size) :
    ∃ k, Rounds total size k ∧ widen total size = size * 2 ^ k := by
  fun_induction widen total size with
  | case1 size h ih =>
    obtain ⟨k, rounds, widen_eq⟩ := ih (by omega)
    refine ⟨k + 1, rounds.cons sendable h.1, ?_⟩
    rw [widen_eq, double_eq sendable h.1, Nat.mul_assoc, ← Nat.pow_succ']
  | case2 size h =>
    -- sizes never stop growing, so it is the parts that have become few
    have few : count total size ≤ maxCount := by
      by_contra many
      rw [Nat.not_le] at many
      exact h ⟨many, lt_double sendable pos many⟩
    exact ⟨0, .none few, by rw [Nat.pow_zero, Nat.mul_one]⟩

theorem count_mono (pos : 0 < size) (le : total ≤ total') : count total size ≤ count total' size :=
  (count_le_iff pos).2 (Nat.le_trans le ((count_le_iff pos).1 (Nat.le_refl _)))

/-- A larger object takes no fewer rounds. -/
theorem Rounds.mono {k k' : Nat} (pos : 0 < size) (le : total ≤ total')
    (rounds : Rounds total size k) (rounds' : Rounds total' size k') : k ≤ k' := by
  have positive : 0 < size * 2 ^ k' := Nat.mul_pos pos (Nat.two_pow_pos k')
  exact rounds.least.2 (Nat.le_trans (count_mono positive le) rounds'.least.1)

theorem size_eq_error_iff {e : TooLarge} :
    Part.size total requested = .error e ↔ maxTotal < total ∧ e = ⟨total⟩ := by
  unfold Part.size
  split
  · simp [eq_comm, *]
  · simp [*]

theorem le_of_size_eq_ok {c : Nat} (found : Part.size total requested = .ok c) :
    total ≤ maxTotal := by
  by_contra large
  rw [size_eq_error_iff.2 ⟨Nat.not_le.1 large, rfl⟩] at found
  cases found

theorem max_minSize_pos (requested : Nat) : 0 < max requested minSize :=
  Nat.lt_of_lt_of_le (by decide) (Nat.le_max_right requested minSize)

/-- The size found for an object that can be sent. -/
theorem size_eq_rounds (sendable : total ≤ maxTotal) (requested : Nat) :
    ∃ k, Rounds total (max requested minSize) k ∧
      Part.size total requested = .ok (min maxSize (max requested minSize * 2 ^ k)) := by
  obtain ⟨k, rounds, widen_eq⟩ := widen_rounds sendable (max_minSize_pos requested)
  refine ⟨k, rounds, ?_⟩
  rw [Part.size, if_neg (Nat.not_lt.2 sendable), widen_eq, Nat.min_comm]

/-- A size that is neither too small nor too large, and needs no more parts than there may be, is
the one that is found. -/
theorem size_eq_requested (sendable : total ≤ maxTotal) (least : minSize ≤ requested)
    (greatest : requested ≤ maxSize) (few : count total requested ≤ maxCount) :
    Part.size total requested = .ok requested := by
  rw [Part.size, if_neg (Nat.not_lt.2 sendable), Nat.max_eq_left least, widen_eq few,
    Nat.min_eq_left greatest]

theorem size_mono (le : total ≤ total') {c c' : Nat} (found : Part.size total requested = .ok c)
    (found' : Part.size total' requested = .ok c') : c ≤ c' := by
  obtain ⟨k, rounds, found_eq⟩ := size_eq_rounds (le_of_size_eq_ok found) requested
  obtain ⟨k', rounds', found_eq'⟩ := size_eq_rounds (le_of_size_eq_ok found') requested
  rw [found] at found_eq
  rw [found'] at found_eq'
  cases found_eq
  cases found_eq'
  have fewer : k ≤ k' := rounds.mono (max_minSize_pos requested) le rounds'
  have wider : max requested minSize * 2 ^ k ≤ max requested minSize * 2 ^ k' :=
    Nat.mul_le_mul_left _ (Nat.pow_le_pow_right (by decide) fewer)
  omega

/-- What the size `c` found for an object is good for. -/
structure Suits (total requested c : Nat) : Prop where
  least : minSize ≤ c
  greatest : c ≤ maxSize
  few : count total c ≤ maxCount
  /-- It is the size asked for exactly where that one will do. -/
  kept_iff : c = requested ↔
    minSize ≤ requested ∧ requested ≤ maxSize ∧ count total requested ≤ maxCount
  /-- Asked for, it is found again. -/
  again : Part.size total c = .ok c
  /-- A larger object gets no smaller parts. -/
  mono : ∀ total' c', total ≤ total' → Part.size total' requested = .ok c' → c ≤ c'

theorem suits_of_size {c : Nat} (found : Part.size total requested = .ok c) :
    Suits total requested c := by
  have sendable := le_of_size_eq_ok found
  obtain ⟨c', found', least, greatest, few⟩ := size_spec sendable requested
  rw [found] at found'
  cases found'
  refine ⟨least, greatest, few, ⟨?_, fun ⟨least', greatest', few'⟩ => ?_⟩,
    size_eq_requested sendable least greatest few, fun _ _ le found' => size_mono le found found'⟩
  · rintro rfl
    exact ⟨least, greatest, few⟩
  · rw [size_eq_requested sendable least' greatest' few'] at found
    cases found
    rfl

/-- The part size: none for an object that cannot be sent, and for any other the size asked for,
raised to the smallest part, doubled as often as needed and no more, and cut at the largest part. -/
theorem part_size_is_least_doubling (total requested : Nat) :
    (∀ e, Part.size total requested = .error e ↔ maxTotal < total ∧ e = ⟨total⟩) ∧
    (total ≤ maxTotal → ∃ k c, Rounds total (max requested minSize) k ∧
      c = min maxSize (max requested minSize * 2 ^ k) ∧ Part.size total requested = .ok c ∧
      Suits total requested c) := by
  refine ⟨fun e => size_eq_error_iff, fun sendable => ?_⟩
  obtain ⟨k, rounds, found⟩ := size_eq_rounds sendable requested
  exact ⟨k, _, rounds, rfl, found, suits_of_size found⟩

/-- The largest object, when parts of 7 MiB are asked for: seven rounds, parts of 896 MiB. -/
theorem largest_object_doubles_seven_times : maxTotal ≤ maxTotal ∧
    Part.size maxTotal (7 * mebi) = .ok (896 * mebi) ∧
      Suits maxTotal (7 * mebi) (896 * mebi) := by
  obtain ⟨k, c, rounds, rfl, found, suits⟩ :=
    (part_size_is_least_doubling maxTotal (7 * mebi)).2 (Nat.le_refl _)
  have seven : k = 7 := by
    have : k ≤ 7 := rounds.least.2 (by decide : count maxTotal (7 * mebi * 2 ^ 7) ≤ maxCount)
    have few : count maxTotal (7 * mebi * 2 ^ k) ≤ maxCount := rounds.least.1
    rw [count_le_iff (Nat.mul_pos (by decide) (Nat.two_pow_pos k))] at few
    by_contra ne
    have small : 2 ^ k ≤ 2 ^ 6 := Nat.pow_le_pow_right (by decide) (by omega)
    have : maxCount * (7 * mebi * 2 ^ k) ≤ maxCount * (7 * mebi * 2 ^ 6) :=
      Nat.mul_le_mul_left _ (Nat.mul_le_mul_left _ small)
    exact absurd (Nat.le_trans few this) (by decide)
  subst seven
  exact ⟨Nat.le_refl _, found, suits⟩

end Ferry.Part
