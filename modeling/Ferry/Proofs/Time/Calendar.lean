import Ferry.Time.Calendar
import Mathlib.Algebra.Order.Ring.Nat

/-!
Days and dates are two ways to count the same: the date of a day is one of the calendar, and the day
of that date is the day itself.
-/
namespace Ferry.Time

theorem le_daysOfYears (n : Nat) : 365 * n ≤ daysOfYears n := by
  unfold daysOfYears
  omega

theorem daysOfYears_le {n : Nat} (le : n ≤ 400) : daysOfYears n ≤ 365 * n + 98 := by
  unfold daysOfYears
  omega

/-- A day of a cycle falls in the year that is found for it. -/
theorem yearOfCycle_spec {day : Nat} (lt : day < cycleDays) :
    yearOfCycle day < 400 ∧ daysOfYears (yearOfCycle day) ≤ day ∧
      day < daysOfYears (yearOfCycle day + 1) := by
  have cycle : daysOfYears 400 = cycleDays := rfl
  have cycle_length : cycleDays = 146097 := rfl
  have at_least : 365 * (day / 365) ≤ day := Nat.mul_div_le day 365
  have below : day < 365 * (day / 365 + 1) := by omega
  have last_year : day / 365 ≤ 400 := by omega
  unfold yearOfCycle
  generalize day / 365 = year at *
  split
  · rename_i begun
    -- the last day of a cycle would begin a year 400, were it not for the leap days
    have no_end : year ≠ 400 := by
      rintro rfl
      omega
    exact ⟨by omega, begun, Nat.lt_of_lt_of_le below (le_daysOfYears _)⟩
  · rename_i not_begun
    cases year with
    | zero => exact absurd (Nat.zero_le day) not_begun
    | succ year =>
      have := daysOfYears_le (n := year) (by omega)
      simp only [Nat.add_sub_cancel]
      omega

theorem isLeap_emod (year : Int) : isLeap (year % 400) = isLeap year := by
  have by_four : year % 400 % 4 = year % 4 := Int.emod_emod_of_dvd year (by decide)
  have by_hundred : year % 400 % 100 = year % 100 := Int.emod_emod_of_dvd year (by decide)
  rw [isLeap, isLeap, by_four, by_hundred, Int.emod_emod]

/-- A year of a cycle is as long as its twelve months. -/
theorem sum_monthLengths {year : Int} {n : Nat} (in_cycle : year % 400 = n) :
    (monthLengths (isLeap year)).sum = daysOfYears (n + 1) - daysOfYears n := by
  have all : ∀ n < 400, (monthLengths (isLeap (n : Nat))).sum =
      daysOfYears (n + 1) - daysOfYears n := by decide +kernel
  rw [← isLeap_emod, in_cycle]
  exact all n (by omega)

/-- A day of some months falls in the one that is found for it. -/
theorem splitMonths_spec {lengths : List Nat} {day : Nat} (lt : day < lengths.sum) :
    ∃ length, lengths[(splitMonths lengths day).1]? = some length ∧
      (splitMonths lengths day).2 < length ∧
      (lengths.take (splitMonths lengths day).1).sum + (splitMonths lengths day).2 = day := by
  induction lengths generalizing day with
  | nil => simp at lt
  | cons length lengths ih =>
    rw [splitMonths]
    split
    · rename_i inside
      exact ⟨length, rfl, inside, by simp⟩
    · have lt_rest : day - length < lengths.sum := by
        rw [List.sum_cons] at lt
        omega
      obtain ⟨found, at_month, inside, sum⟩ := ih lt_rest
      refine ⟨found, at_month, inside, ?_⟩
      rw [List.take_succ_cons, List.sum_cons]
      omega

theorem Date.isValid_of_getElem? {year : Int} {month day length : Nat}
    (in_year : (monthLengths (isLeap year))[month]? = some length) (in_month : day < length) :
    Date.isValid ⟨year, month + 1, day + 1⟩ = true := by
  simp only [isValid, Nat.add_sub_cancel, in_year]
  simp
  omega

/-- The date of a day is in the calendar, and the day of that date is the day. -/
theorem Date.ofDay_spec (day : Int) :
    (Date.ofDay day).isValid = true ∧ (Date.ofDay day).toDay = day := by
  have cycle_length : cycleDays = 146097 := rfl
  have in_cycle : ((day + daysToEpoch) % cycleDays).toNat < cycleDays := by
    rw [cycle_length]
    omega
  have split_days : (day + daysToEpoch) / cycleDays * cycleDays +
      ((day + daysToEpoch) % cycleDays).toNat = day + daysToEpoch := by
    rw [cycle_length]
    omega
  simp only [Date.ofDay]
  -- from here on only the cycle and the day in it matter
  generalize (day + daysToEpoch) / cycleDays = cycle at split_days ⊢
  generalize ((day + daysToEpoch) % cycleDays).toNat = inCycle at in_cycle split_days ⊢
  obtain ⟨in_years, begun, not_over⟩ := yearOfCycle_spec in_cycle
  generalize yearOfCycle inCycle = n at in_years begun not_over ⊢
  have year_mod : (400 * cycle + n) % 400 = n := by omega
  have year_div : (400 * cycle + n) / 400 = cycle := by omega
  have in_year : inCycle - daysOfYears n < (monthLengths (isLeap (400 * cycle + n))).sum := by
    rw [sum_monthLengths year_mod]
    omega
  obtain ⟨length, month, in_month, sum⟩ := splitMonths_spec in_year
  refine ⟨isValid_of_getElem? month in_month, ?_⟩
  simp only [toDay, year_mod, year_div, Nat.add_sub_cancel, Int.toNat_natCast,
    ← List.sum_eq_foldl]
  omega

theorem Date.bounds_of_isValid {d : Date} (valid : d.isValid = true) :
    (1 ≤ d.month ∧ d.month ≤ 12) ∧ 1 ≤ d.day ∧ d.day ≤ 31 := by
  simp only [isValid, Bool.and_eq_true, decide_eq_true_eq] at valid
  obtain ⟨⟨month_pos, day_pos⟩, in_month⟩ := valid
  split at in_month
  · rename_i length month
    obtain ⟨lt, -⟩ := List.getElem?_eq_some_iff.1 month
    have lengths : (monthLengths (isLeap d.year)).length = 12 := rfl
    have longest : ∀ leap, ∀ length ∈ monthLengths leap, length ≤ 31 := by decide
    have le := longest _ length (List.mem_of_getElem? month)
    have day_le : d.day ≤ length := of_decide_eq_true in_month
    omega
  · cases in_month

end Ferry.Time
