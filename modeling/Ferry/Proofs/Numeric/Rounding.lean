import Ferry.Numeric.Rounding
import Mathlib.Algebra.Order.Field.Basic
import Mathlib.Algebra.Order.Field.Rat
import Mathlib.Data.Set.Basic
import Mathlib.Tactic.Linarith
import Mathlib.Tactic.Ring

/-!
What rounding comes to, said of exact quotients. `IsNearest` takes the nearest number of a grid, and
of two equally near ones the one on a coarser grid, the even ones. Rounding to whole numbers and to
a number of binary digits are both of this kind (`isNearest_multiple`, `isNearest_toPrecision`), and
whatever is of this kind keeps the order (`IsNearest.mono`).
-/
namespace Ferry.Numeric

/-- `y` is the number of a grid nearest to `x`, and one of the even ones where there is another that
is as near. -/
structure IsNearest (grid even : Set ℚ) (x y : ℚ) : Prop where
  mem : y ∈ grid
  nearest : ∀ z ∈ grid, |x - y| ≤ |x - z|
  tie : ∀ z ∈ grid, z ≠ y → |x - z| = |x - y| → y ∈ even

/-- The whole multiples of a number. -/
def multiples (u : ℚ) : Set ℚ := {q | ∃ n : ℕ, q = n * u}

/-- The whole numbers of so many binary digits, with zeros after them or not. -/
def precise (bits : ℕ) : Set ℚ := {q | ∃ m shift : ℕ, m < 2 ^ bits ∧ q = m * 2 ^ shift}

variable {grid even : Set ℚ} {x x' y y' u : ℚ} {num den n m : ℕ}

/-- A number of the grid is nearest to itself alone. -/
theorem IsNearest.eq_of_mem (near : IsNearest grid even x y) (mem : x ∈ grid) : y = x := by
  have le := near.nearest x mem
  rw [sub_self, abs_zero] at le
  exact (sub_eq_zero.1 (abs_eq_zero.1 (le_antisymm le (abs_nonneg _)))).symm

/-- The greater of two numbers is nearer from their middle on. -/
theorem abs_sub_le_iff_above (lt : y' < y) : |x - y| ≤ |x - y'| ↔ y + y' ≤ 2 * x := by
  rw [← sq_le_sq]
  constructor <;> intro h <;> nlinarith

/-- The smaller of two numbers is nearer up to their middle. -/
theorem abs_sub_le_iff_below (lt : y' < y) : |x - y'| ≤ |x - y| ↔ 2 * x ≤ y + y' := by
  rw [← sq_le_sq]
  constructor <;> intro h <;> nlinarith

/-- Rounding keeps the order: two numbers of the grid that change places would have to be as near to
one number between them. -/
theorem IsNearest.mono (near : IsNearest grid even x y) (near' : IsNearest grid even x' y')
    (lt : x < x') : y ≤ y' := by
  by_contra above
  rw [not_le] at above
  have lower := (abs_sub_le_iff_above above).1 (near.nearest y' near'.mem)
  have upper := (abs_sub_le_iff_below above).1 (near'.nearest y near.mem)
  linarith

/-- A multiple within half a unit is nearest, and none is as near unless it is half a unit away. -/
theorem isNearest_multiple (pos : 0 < u) (within : |x - n * u| ≤ u / 2)
    (half : |x - n * u| = u / 2 → ↑n * u ∈ even) : IsNearest (multiples u) even x (n * u) := by
  -- other multiples are at least a unit away from this one
  have apart : ∀ m : ℕ, m ≠ n → u / 2 ≤ |x - m * u| := by
    intro m ne
    have step : (1 : ℚ) ≤ |(m : ℚ) - n| := by
      have other : (m : ℤ) - n ≠ 0 := sub_ne_zero.2 (Int.ofNat_inj.ne.2 ne)
      exact_mod_cast Int.one_le_abs other
    have unit : u ≤ |(x - n * u) - (x - m * u)| := by
      have eq : (x - n * u) - (x - m * u) = (m - n) * u := by ring
      rw [eq, abs_mul, abs_of_pos pos]
      exact le_mul_of_one_le_left pos.le step
    have far := unit.trans (abs_sub _ _)
    linarith
  refine ⟨⟨n, rfl⟩, ?_, ?_⟩
  · rintro _ ⟨m, rfl⟩
    by_cases same : m = n
    · rw [same]
    · exact within.trans (apart m same)
  · rintro _ ⟨m, rfl⟩ ne equal
    have other : m ≠ n := by
      rintro rfl
      exact ne rfl
    exact half (le_antisymm within (equal ▸ apart m other))

/-! ### To whole numbers -/

/-- A quotient is rounded to a number less than a half away, or it is a half away from an even
one. -/
theorem roundHalfEven_spec (num : ℕ) (pos : 0 < den) :
    (2 * num < (2 * roundHalfEven num den + 1) * den ∧
      2 * roundHalfEven num den * den < 2 * num + den) ∨
    Even (roundHalfEven num den) ∧ (2 * num = (2 * roundHalfEven num den + 1) * den ∨
      2 * roundHalfEven num den * den = 2 * num + den) := by
  have parts := Nat.div_add_mod' num den
  have rest_lt := Nat.mod_lt num pos
  simp only [roundHalfEven]
  generalize num / den = q at *
  generalize num % den = r at *
  subst parts
  split
  · left
    constructor <;> nlinarith
  split
  · left
    constructor <;> nlinarith
  · right
    have half : 2 * r = den := by omega
    obtain even | odd := Nat.mod_two_eq_zero_or_one q
    · rw [even]
      exact ⟨Nat.even_iff.2 even, .inl (by linarith)⟩
    · rw [odd]
      exact ⟨Nat.even_iff.2 (by omega), .inr (by linarith)⟩

theorem roundHalfEven_bounds (num : ℕ) (pos : 0 < den) :
    2 * num ≤ (2 * roundHalfEven num den + 1) * den ∧
      2 * roundHalfEven num den * den ≤ 2 * num + den := by
  obtain ⟨below, above⟩ | ⟨-, edge | edge⟩ := roundHalfEven_spec num pos
  · exact ⟨below.le, above.le⟩
  · constructor <;> nlinarith
  · constructor <;> nlinarith

theorem abs_sub_roundHalfEven (num : ℕ) (pos : 0 < den) :
    |(num : ℚ) / den - roundHalfEven num den| ≤ 1 / 2 ∧
      (|(num : ℚ) / den - roundHalfEven num den| = 1 / 2 → Even (roundHalfEven num den)) := by
  have pos' : (0 : ℚ) < den := Nat.cast_pos.2 pos
  have spec := roundHalfEven_spec num pos
  generalize roundHalfEven num den = n at *
  obtain ⟨below, above⟩ | ⟨even, edge⟩ := spec
  · have below' : (2 : ℚ) * num < (2 * n + 1) * den := by exact_mod_cast below
    have above' : (2 : ℚ) * n * den < 2 * num + den := by exact_mod_cast above
    have within : |(num : ℚ) / den - n| < 1 / 2 := by
      rw [abs_lt, lt_sub_iff_add_lt, sub_lt_iff_lt_add, lt_div_iff₀ pos', div_lt_iff₀ pos']
      constructor <;> linarith
    exact ⟨within.le, fun half => absurd half within.ne⟩
  · refine ⟨?_, fun _ => even⟩
    have edge' : (2 : ℚ) * num = (2 * n + 1) * den ∨ (2 : ℚ) * n * den = 2 * num + den := by
      exact_mod_cast edge
    rw [abs_le, le_sub_iff_add_le, sub_le_iff_le_add, le_div_iff₀ pos', div_le_iff₀ pos']
    obtain edge | edge := edge' <;> constructor <;> linarith

/-- Rounding to whole numbers of a unit. -/
theorem isNearest_roundHalfEven (pos : 0 < den) (unit_pos : 0 < u)
    (even_mem : Even (roundHalfEven num den) → roundHalfEven num den * u ∈ even) :
    IsNearest (multiples u) even (num / den * u) (roundHalfEven num den * u) := by
  obtain ⟨within, half⟩ := abs_sub_roundHalfEven num pos
  have scaled : |num / den * u - roundHalfEven num den * u| =
      |(num : ℚ) / den - roundHalfEven num den| * u := by
    rw [← sub_mul, abs_mul, abs_of_pos unit_pos]
  refine isNearest_multiple unit_pos ?_ fun edge => even_mem (half ?_)
  · rw [scaled]
    linarith [mul_le_mul_of_nonneg_right within unit_pos.le]
  · rw [scaled] at edge
    exact mul_right_cancel₀ unit_pos.ne' (edge.trans (by ring))

theorem roundHalfEven_mono (pos : 0 < den) (le : n ≤ m) :
    roundHalfEven n den ≤ roundHalfEven m den := by
  obtain lt | rfl := Nat.lt_or_eq_of_le le
  · have near : ∀ k : ℕ, IsNearest (multiples 1) Set.univ ((k : ℚ) / den * 1)
        (roundHalfEven k den * 1) := fun k =>
      isNearest_roundHalfEven pos one_pos fun _ => Set.mem_univ _
    have lt' : (n : ℚ) / den * 1 < m / den * 1 := by
      have pos' : (0 : ℚ) < den := Nat.cast_pos.2 pos
      rw [mul_one, mul_one]
      exact div_lt_div_of_pos_right (Nat.cast_lt.2 lt) pos'
    have ordered := (near n).mono (near m) lt'
    rw [mul_one, mul_one] at ordered
    exact_mod_cast ordered
  · exact Nat.le_refl _

/-! ### To a number of binary digits -/

theorem mem_precise_of_lt {bits m shift : ℕ} (lt : m < 2 ^ bits) :
    ((m * 2 ^ shift : ℕ) : ℚ) ∈ precise bits :=
  ⟨m, shift, lt, by push_cast; rfl⟩

/-- Also the first number with one digit more, since all its digits but one are zeros. -/
theorem mem_precise_of_le {bits m : ℕ} (shift : ℕ) (some_digit : 0 < bits) (le : m ≤ 2 ^ bits) :
    ((m * 2 ^ shift : ℕ) : ℚ) ∈ precise bits := by
  obtain lt | rfl := Nat.lt_or_eq_of_le le
  · exact mem_precise_of_lt lt
  · have one_lt : 1 < 2 ^ bits := Nat.one_lt_two_pow some_digit.ne'
    rw [← pow_add, ← Nat.one_mul (2 ^ (bits + shift))]
    exact mem_precise_of_lt one_lt

/-- A number of few digits is a multiple of a power of two, unless it is small. -/
theorem multiple_or_small {bits : ℕ} {z : ℚ} (mem : z ∈ precise (bits + 1)) (shift : ℕ) :
    z ∈ multiples (2 ^ shift) ∨ 0 < shift ∧ z < 2 ^ bits * 2 ^ shift := by
  obtain ⟨m, s, lt, rfl⟩ := mem
  by_cases le : shift ≤ s
  · left
    refine ⟨m * 2 ^ (s - shift), ?_⟩
    have split : (2 : ℚ) ^ s = 2 ^ (s - shift) * 2 ^ shift := by
      rw [← pow_add, Nat.sub_add_cancel le]
    rw [split]
    push_cast
    ring
  · right
    refine ⟨by omega, ?_⟩
    have small : m * 2 ^ s < 2 ^ bits * 2 ^ shift :=
      calc m * 2 ^ s < 2 ^ (bits + 1) * 2 ^ s := Nat.mul_lt_mul_of_pos_right lt (by positivity)
        _ = 2 ^ bits * 2 ^ (s + 1) := by ring
        _ ≤ 2 ^ bits * 2 ^ shift :=
          Nat.mul_le_mul_left _ (Nat.pow_le_pow_right Nat.two_pos (by omega))
    exact_mod_cast small

/-- Rounding to whole numbers of the power of two that leaves few enough digits. What is no multiple
of it is smaller than the number rounded and everything near it. -/
theorem isNearest_toPrecision (bits : ℕ) (some_digit : 0 < bits) (n : ℕ) :
    IsNearest (precise (bits + 1)) (precise bits) n (toPrecision (bits + 1) n) := by
  obtain ⟨shift, shift_eq⟩ : ∃ shift, shift = Nat.log2 n + 1 - (bits + 1) := ⟨_, rfl⟩
  have unit_pos : 0 < 2 ^ shift := Nat.two_pow_pos shift
  have rounded : toPrecision (bits + 1) n = roundHalfEven n (2 ^ shift) * 2 ^ shift := by
    rw [toPrecision, shift_eq]
    rfl
  have lt : n < 2 ^ (bits + 1) * 2 ^ shift := by
    rw [← pow_add]
    exact Nat.lt_log2_self.trans_le (Nat.pow_le_pow_right Nat.two_pos (by omega))
  have large : 0 < shift → 2 ^ bits * 2 ^ shift ≤ n := by
    intro some_shift
    have log_eq : bits + shift = Nat.log2 n := by omega
    rw [← pow_add, log_eq]
    refine Nat.log2_self_le ?_
    rintro rfl
    rw [Nat.log2_zero] at log_eq
    omega
  -- at most the first number of one digit more
  have le : roundHalfEven n (2 ^ shift) ≤ 2 ^ (bits + 1) := by
    have bound := (roundHalfEven_bounds n unit_pos).2
    by_contra above
    have next : (2 ^ (bits + 1) + 1) * 2 ^ shift ≤ roundHalfEven n (2 ^ shift) * 2 ^ shift :=
      Nat.mul_le_mul_right _ (Nat.not_le.1 above)
    nlinarith
  have even_mem : Even (roundHalfEven n (2 ^ shift)) →
      (roundHalfEven n (2 ^ shift) * 2 ^ shift : ℚ) ∈ precise bits := by
    rintro ⟨k, halves⟩
    have half_le : k ≤ 2 ^ bits := by
      rw [pow_succ] at le
      omega
    have mem := mem_precise_of_le (shift + 1) some_digit half_le
    rw [halves]
    push_cast at mem ⊢
    rwa [← two_mul, mul_comm 2, mul_assoc, ← pow_succ']
  have near := isNearest_roundHalfEven unit_pos (by positivity) even_mem
  push_cast at near
  rw [div_mul_cancel₀ _ (by positivity)] at near
  rw [rounded]
  have below : ∀ z : ℚ, 0 < shift → z < 2 ^ bits * 2 ^ shift →
      |(n : ℚ) - roundHalfEven n (2 ^ shift) * 2 ^ shift| < |n - z| := by
    intro z some_shift small
    have first := near.nearest (2 ^ bits * 2 ^ shift) ⟨2 ^ bits, by push_cast; rfl⟩
    have large' : (2 : ℚ) ^ bits * 2 ^ shift ≤ n := by exact_mod_cast large some_shift
    rw [abs_of_nonneg (sub_nonneg.2 large')] at first
    rw [abs_of_nonneg (by linarith : (0 : ℚ) ≤ n - z)]
    linarith
  refine ⟨mem_precise_of_le shift (Nat.succ_pos bits) le, fun z mem => ?_, fun z mem ne equal => ?_⟩
  · push_cast
    obtain multiple | ⟨some_shift, small⟩ := multiple_or_small mem shift
    · exact near.nearest z multiple
    · exact (below z some_shift small).le
  · push_cast at ne equal ⊢
    obtain multiple | ⟨some_shift, small⟩ := multiple_or_small mem shift
    · exact near.tie z multiple ne equal
    · exact absurd equal (below z some_shift small).ne'

theorem toPrecision_of_le {bits : ℕ} (some_digit : 0 < bits) (le : n ≤ 2 ^ (bits + 1)) :
    toPrecision (bits + 1) n = n := by
  have mem := mem_precise_of_le 0 (Nat.succ_pos bits) le
  rw [pow_zero, Nat.mul_one] at mem
  exact_mod_cast (isNearest_toPrecision bits some_digit n).eq_of_mem mem

theorem toPrecision_mono (bits : ℕ) (some_digit : 0 < bits) (le : n ≤ m) :
    toPrecision (bits + 1) n ≤ toPrecision (bits + 1) m := by
  obtain lt | rfl := Nat.lt_or_eq_of_le le
  · exact_mod_cast (isNearest_toPrecision bits some_digit n).mono
      (isNearest_toPrecision bits some_digit m) (Nat.cast_lt.2 lt)
  · exact Nat.le_refl _

theorem roundHalfUp_lt_iff (pos : 0 < den) :
    roundHalfUp num den < n ↔ 2 * num + den < 2 * n * den := by
  rw [roundHalfUp, Nat.div_lt_iff_lt_mul (Nat.mul_pos Nat.two_pos pos), ← Nat.mul_assoc,
    Nat.mul_comm n 2]

end Ferry.Numeric
