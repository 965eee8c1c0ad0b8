import Ferry.Text.Numeral
import Mathlib.Algebra.Order.Ring.Nat

/-!
What is written in decimal reads back as the same number, alone and filled up with zeros to a width.
-/
namespace Ferry.Text

theorem digit?_digitChar {d : Nat} (lt : d < 10) : digit? d.digitChar = some d := by
  have all : ∀ d < 10, digit? d.digitChar = some d := by decide
  exact all d lt

theorem isDigit_digitChar {d : Nat} (lt : d < 10) : isDigit d.digitChar = true := by
  rw [isDigit, digit?_digitChar lt]
  rfl

theorem bounds_of_isDigit {c : Char} (digit : isDigit c = true) : 48 ≤ c.toNat ∧ c.toNat ≤ 57 := by
  unfold isDigit digit? at digit
  split at digit
  · assumption
  · cases digit

theorem readDigits_append {n m : Nat} {ds : List Char} (read : readDigits n ds = some m)
    (es : List Char) : readDigits n (ds ++ es) = readDigits m es := by
  induction ds generalizing n with
  | nil =>
    obtain rfl := Option.some.inj read
    rfl
  | cons c ds ih =>
    obtain ⟨d, digit, read⟩ := Option.bind_eq_some_iff.1 read
    rw [List.cons_append, readDigits, digit]
    exact ih read

/-- A number is at least the one that its first digits denote. -/
theorem le_of_readDigits {n m : Nat} {ds : List Char} (read : readDigits n ds = some m) :
    n ≤ m := by
  induction ds generalizing n with
  | nil => exact Nat.le_of_eq (Option.some.inj read)
  | cons c ds ih =>
    obtain ⟨d, -, read⟩ := Option.bind_eq_some_iff.1 read
    have := ih read
    omega

/-- Digits are split off from what is none. -/
theorem span_digits {ds rest : List Char} (digits : ∀ c ∈ ds, isDigit c = true)
    (ends : ∀ c ∈ rest.head?, isDigit c = false) :
    (ds ++ rest).takeWhile isDigit = ds ∧ (ds ++ rest).dropWhile isDigit = rest := by
  have none_left : rest.takeWhile isDigit = [] ∧ rest.dropWhile isDigit = rest := by
    cases rest with
    | nil => exact ⟨rfl, rfl⟩
    | cons c rest =>
      have no_digit : ¬ isDigit c = true := by simp [ends c rfl]
      exact ⟨List.takeWhile_cons_of_neg no_digit, List.dropWhile_cons_of_neg no_digit⟩
  rw [List.takeWhile_append_of_pos digits, List.dropWhile_append_of_pos digits, none_left.1,
    none_left.2, List.append_nil]
  exact ⟨rfl, rfl⟩

theorem readDigits_replicate_zero (k : Nat) : readDigits 0 (List.replicate k '0') = some 0 := by
  induction k with
  | zero => rfl
  | succ k ih => exact ih

theorem readDigits_toDigits (n : Nat) : readDigits 0 (Nat.toDigits 10 n) = some n := by
  induction n using Nat.strongRecOn with
  | ind n ih =>
    rw [Nat.toDigits_eq_if (by decide)]
    split
    · rename_i lt
      rw [readDigits, digit?_digitChar lt]
      simp [readDigits]
    · have last : n % 10 < 10 := Nat.mod_lt n (by decide)
      rw [readDigits_append (ih (n / 10) (by omega)), readDigits, digit?_digitChar last]
      show some (10 * (n / 10) + n % 10) = some n
      rw [Nat.div_add_mod]

theorem isDigit_of_mem_toDigits {n : Nat} {c : Char} (mem : c ∈ Nat.toDigits 10 n) :
    isDigit c = true := by
  induction n using Nat.strongRecOn with
  | ind n ih =>
    rw [Nat.toDigits_eq_if (by decide)] at mem
    split at mem
    · rename_i lt
      obtain rfl := List.mem_singleton.1 mem
      exact isDigit_digitChar lt
    · obtain first | last := List.mem_append.1 mem
      · exact ih (n / 10) (by omega) first
      · obtain rfl := List.mem_singleton.1 last
        exact isDigit_digitChar (Nat.mod_lt n (by decide))

/-- A numeral begins with a zero only if it has no other digit. -/
theorem toDigits_eq_cons (n : Nat) :
    ∃ c ds, Nat.toDigits 10 n = c :: ds ∧ isDigit c = true ∧ (c = '0' → ds = []) := by
  induction n using Nat.strongRecOn with
  | ind n ih =>
    rw [Nat.toDigits_eq_if (by decide)]
    split
    · rename_i lt
      exact ⟨_, [], rfl, isDigit_digitChar lt, fun _ => rfl⟩
    · rename_i big
      obtain ⟨c, ds, eq, digit, zero⟩ := ih (n / 10) (by omega)
      refine ⟨c, ds ++ [(n % 10).digitChar], by rw [eq]; rfl, digit, ?_⟩
      rintro rfl
      -- the first digits would denote zero, but the number has more than one digit
      obtain rfl := zero rfl
      have read := readDigits_toDigits (n / 10)
      rw [eq] at read
      have none_left : 0 = n / 10 := Option.some.inj read
      omega

theorem readDigits_padded (width n : Nat) : readDigits 0 (padded width n) = some n := by
  rw [padded, readDigits_append (readDigits_replicate_zero _), readDigits_toDigits]

theorem isDigit_of_mem_padded {width n : Nat} {c : Char} (mem : c ∈ padded width n) :
    isDigit c = true := by
  obtain zero | digit := List.mem_append.1 mem
  · rw [List.eq_of_mem_replicate zero]
    rfl
  · exact isDigit_of_mem_toDigits digit

theorem padded_eq_cons (width n : Nat) :
    ∃ c cs, padded width n = c :: cs ∧ isDigit c = true := by
  cases eq : padded width n with
  | nil =>
    obtain ⟨c, ds, digits, -⟩ := toDigits_eq_cons n
    rw [padded, digits] at eq
    exact absurd eq (List.append_ne_nil_of_right_ne_nil _ (List.cons_ne_nil c ds))
  | cons c cs => exact ⟨c, cs, rfl, isDigit_of_mem_padded (eq ▸ List.mem_cons_self)⟩

theorem length_padded {width n : Nat} (pos : 0 < width) (lt : n < 10 ^ width) :
    (padded width n).length = width := by
  have fits := (Nat.length_toDigits_le_iff (by decide) pos).2 lt
  rw [padded, List.length_append, List.length_replicate]
  omega

end Ferry.Text
