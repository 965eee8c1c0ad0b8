import Ferry.Proofs.Part.Tiling
import Mathlib.Algebra.Order.Field.Basic
import Mathlib.Data.Rat.Floor

/-!
The ranges of an object computed in 64-bit words, as sizes are given. What an operation on words
comes to is only taken where it is the sum, difference or product of the numbers, so a computation
that has a result has neither gone past the largest word nor below zero on the way. The ranges
always have one (`exists_wordRanges`), and it is that of the computation with numbers.
-/
namespace Ferry.Part

/-- A word, where it is the number that it is meant to be. -/
def checked (w : UInt64) (n : Int) : Option UInt64 := if (w.toNat : Int) = n then some w else none

/-- The sum of two words. -/
def sum? (a b : UInt64) : Option UInt64 := checked (a + b) (a.toNat + b.toNat)

/-- The difference of two words. -/
def difference? (a b : UInt64) : Option UInt64 := checked (a - b) (a.toNat - b.toNat)

/-- The product of two words. -/
def product? (a b : UInt64) : Option UInt64 := checked (a * b) (a.toNat * b.toNat)

/-- How many parts of `size` bytes cover `total` bytes: the quotient, and one more where something
is left over. -/
def wordCount? (total size : UInt64) : Option UInt64 :=
  if size = 0 then none
  else if total % size = 0 then some (total / size)
  else sum? (total / size) 1

/-- The distance between the starts of ranges. -/
def wordStep (total size : UInt64) : UInt64 := if size = 0 then max total 1 else size

/-- A range in words. -/
structure WordRange where
  start : UInt64
  length : UInt64
deriving DecidableEq, Repr

/-- The range that words stand for. -/
def WordRange.range (w : WordRange) : Range := ⟨w.start.toNat, w.length.toNat⟩

/-- The `i`-th range. -/
def wordRange? (total size i : UInt64) : Option WordRange := do
  let start ← product? i (wordStep total size)
  let rest ← difference? total start
  some ⟨start, min (wordStep total size) rest⟩

/-- All ranges, in order. -/
def wordRanges? (total size : UInt64) : Option (List WordRange) := do
  let n ← wordCount? total (wordStep total size)
  (List.range n.toNat).mapM fun i => wordRange? total size (UInt64.ofNat i)

variable {total size a b : UInt64}

theorem sum?_eq (fits : a.toNat + b.toNat < UInt64.size) :
    ∃ c, sum? a b = some c ∧ c.toNat = a.toNat + b.toNat := by
  have value : (a + b).toNat = a.toNat + b.toNat := by
    rw [UInt64.toNat_add]
    exact Nat.mod_eq_of_lt fits
  exact ⟨a + b, if_pos (by rw [value]; rfl), value⟩

theorem product?_eq (fits : a.toNat * b.toNat < UInt64.size) :
    ∃ c, product? a b = some c ∧ c.toNat = a.toNat * b.toNat := by
  have value : (a * b).toNat = a.toNat * b.toNat := by
    rw [UInt64.toNat_mul]
    exact Nat.mod_eq_of_lt fits
  exact ⟨a * b, if_pos (by rw [value]; rfl), value⟩

theorem difference?_eq (above : b.toNat ≤ a.toNat) :
    ∃ c, difference? a b = some c ∧ c.toNat = a.toNat - b.toNat := by
  have value : (a - b).toNat = a.toNat - b.toNat := UInt64.toNat_sub_of_le a b above
  exact ⟨a - b, if_pos (by rw [value]; exact Int.ofNat_sub above), value⟩

theorem toNat_wordStep (total size : UInt64) :
    (wordStep total size).toNat = step total.toNat size.toNat := by
  unfold wordStep step
  by_cases zero : size = 0
  · subst zero
    exact UInt64.toNat_max total 1
  · have some_size : size.toNat ≠ 0 := fun same => zero (UInt64.toNat_inj.1 same)
    rw [if_neg zero, if_neg some_size]

/-- The count by quotient and remainder. -/
theorem count_eq {total size : Nat} (pos : 0 < size) :
    count total size = if total % size = 0 then total / size else total / size + 1 := by
  have parts := Nat.div_add_mod' total size
  have rest_lt := Nat.mod_lt total pos
  unfold count
  split
  · exact Nat.div_eq_of_lt_le (by omega) (by rw [Nat.succ_mul]; omega)
  · exact Nat.div_eq_of_lt_le (by rw [Nat.succ_mul]; omega)
      (by rw [Nat.succ_mul, Nat.succ_mul]; omega)

/-- Where something is left over the size is not one, so the quotient is not the largest word. -/
theorem div_succ_lt {total size : Nat} (lt : total < UInt64.size) (pos : 0 < size)
    (left_over : total % size ≠ 0) : total / size + 1 < UInt64.size := by
  have two_le : 2 ≤ size := by
    have not_one : size ≠ 1 := by
      rintro rfl
      exact left_over (Nat.mod_one total)
    omega
  have half : total / size ≤ total / 2 := Nat.div_le_div_left two_le Nat.two_pos
  have far : 3 < UInt64.size := by decide
  omega

theorem wordCount?_eq (pos : 0 < size.toNat) :
    ∃ n, wordCount? total size = some n ∧ n.toNat = count total.toNat size.toNat := by
  have some_size : size ≠ 0 := by
    rintro rfl
    exact Nat.lt_irrefl 0 pos
  have rest_eq : (total % size).toNat = total.toNat % size.toNat := UInt64.toNat_mod total size
  rw [wordCount?, if_neg some_size, count_eq pos, ← rest_eq]
  by_cases whole : total % size = 0
  · rw [if_pos whole, whole]
    exact ⟨total / size, rfl, UInt64.toNat_div total size⟩
  · have left_over : (total % size).toNat ≠ 0 := fun same => whole (UInt64.toNat_inj.1 same)
    rw [if_neg whole, if_neg left_over]
    have fits := div_succ_lt total.toNat_lt pos (rest_eq ▸ left_over)
    rw [← UInt64.toNat_div] at fits ⊢
    exact sum?_eq fits

theorem wordRange?_eq {i : Nat} (lt : i < rangeCount total.toNat size.toNat) :
    ∃ w, wordRange? total size (UInt64.ofNat i) = some w ∧
      w.range = range total.toNat size.toNat i := by
  have begins := mul_step_lt_of_lt_rangeCount lt
  have i_le := Nat.le_mul_of_pos_right i (step_pos total.toNat size.toNat)
  have i_eq : (UInt64.ofNat i).toNat = i :=
    UInt64.toNat_ofNat_of_lt' (Nat.lt_of_le_of_lt i_le (Nat.lt_trans begins total.toNat_lt))
  have product_eq : (UInt64.ofNat i).toNat * (wordStep total size).toNat =
      i * step total.toNat size.toNat := by
    rw [i_eq, toNat_wordStep]
  obtain ⟨start, product, start_eq⟩ := product?_eq (a := UInt64.ofNat i) (b := wordStep total size)
    (product_eq ▸ Nat.lt_trans begins total.toNat_lt)
  rw [product_eq] at start_eq
  obtain ⟨rest, difference, rest_eq⟩ := difference?_eq (Nat.le_of_lt (start_eq ▸ begins))
  refine ⟨⟨start, min (wordStep total size) rest⟩, ?_, ?_⟩
  · rw [wordRange?, product]
    show (difference? total start >>= _) = _
    rw [difference]
    rfl
  · rw [WordRange.range, range, UInt64.toNat_min, rest_eq, start_eq, toNat_wordStep]

/-- Where every item comes to a result, the list of them does. -/
theorem exists_mapM {α β γ : Type} {f : α → Option β} {value : β → γ} {wanted : α → γ} {l : List α}
    (each : ∀ a ∈ l, ∃ b, f a = some b ∧ value b = wanted a) :
    ∃ bs, l.mapM f = some bs ∧ bs.map value = l.map wanted := by
  induction l with
  | nil => exact ⟨[], rfl, rfl⟩
  | cons a l ih =>
    obtain ⟨⟨b, first, b_eq⟩, each⟩ := List.forall_mem_cons.1 each
    obtain ⟨bs, others, bs_eq⟩ := ih each
    refine ⟨b :: bs, ?_, by rw [List.map_cons, List.map_cons, b_eq, bs_eq]⟩
    rw [List.mapM_cons, first, others]
    rfl

/-- In words the ranges are what they are in numbers. -/
theorem exists_wordRanges (total size : UInt64) : ∃ ws, wordRanges? total size = some ws ∧
    ws.map WordRange.range = ranges total.toNat size.toNat := by
  have pos : 0 < (wordStep total size).toNat := by
    rw [toNat_wordStep]
    exact step_pos _ _
  obtain ⟨n, counted, n_eq⟩ : ∃ n, wordCount? total (wordStep total size) = some n ∧ _ :=
    wordCount?_eq pos
  rw [toNat_wordStep] at n_eq
  rw [wordRanges?, counted, ranges, rangeCount, ← n_eq]
  refine exists_mapM fun i mem => ?_
  have lt : i < n.toNat := List.mem_range.1 mem
  rw [n_eq] at lt
  exact wordRange?_eq lt

theorem length_ranges_eq_ceil {total size : Nat} (pos : 0 < size) :
    (ranges total size).length = ⌈(total : ℚ) / size⌉₊ := by
  have step_eq : step total size = size := if_neg (Nat.pos_iff_ne_zero.1 pos)
  refine eq_of_forall_ge_iff fun n => ?_
  rw [length_ranges, rangeCount, step_eq, count_le_iff pos, Nat.ceil_le,
    div_le_iff₀ (Nat.cast_pos.2 pos)]
  exact_mod_cast Iff.rfl

/-- The ranges of an object are computed within words, whatever its size and that of the parts, and
they are a tiling of it: as many as parts of that size are needed, all but the last of that size.
Where no size is asked for there is one, and an empty object has none. -/
theorem ranges_tile_object (total size : UInt64) :
    (∃ ws, wordRanges? total size = some ws ∧
      ws.map WordRange.range = ranges total.toNat size.toNat) ∧
    Tiles 0 (ranges total.toNat size.toNat) total.toNat ∧
    (0 < size → (ranges total.toNat size.toNat).length = ⌈(total.toNat : ℚ) / size.toNat⌉₊ ∧
      ∀ n r, (ranges total.toNat size.toNat)[n]? = some r → r.length ≤ size.toNat ∧
        (n + 1 < (ranges total.toNat size.toNat).length → r.length = size.toNat)) ∧
    (size = 0 → 0 < total → ranges total.toNat size.toNat = [⟨0, total.toNat⟩]) ∧
    (total = 0 → ranges total.toNat size.toNat = []) := by
  refine ⟨exists_wordRanges total size, tiles_ranges _ _, fun pos => ?_, ?_, ?_⟩
  · have pos : 0 < size.toNat := UInt64.lt_iff_toNat_lt.1 pos
    have step_eq : step total.toNat size.toNat = size.toNat := if_neg (Nat.pos_iff_ne_zero.1 pos)
    refine ⟨length_ranges_eq_ceil pos, fun n r found => ?_⟩
    obtain ⟨-, rfl⟩ := getElem?_ranges found
    rw [length_ranges]
    exact ⟨(range_length_le _ _ n).trans_eq step_eq,
      fun more => (range_length_eq more).trans step_eq⟩
  · rintro rfl some_byte
    exact ranges_zero (UInt64.lt_iff_toNat_lt.1 some_byte)
  · rintro rfl
    exact ranges_eq_nil_iff.2 rfl

/-- The largest word as an object, in parts of half the words and where no size is asked for. -/
theorem largest_word_tiled :
    (0 : UInt64) < 9223372036854775808 ∧
    (ranges 18446744073709551615 9223372036854775808).length = 2 ∧
    (∃ r, (ranges 18446744073709551615 9223372036854775808)[0]? = some r ∧
      r.length = 9223372036854775808) ∧
    ranges 18446744073709551615 0 = [⟨0, 18446744073709551615⟩] := by
  have pos : (0 : UInt64) < 9223372036854775808 := by decide
  obtain ⟨length_eq, full⟩ :=
    (ranges_tile_object 18446744073709551615 9223372036854775808).2.2.1 pos
  have two : ⌈((18446744073709551615 : UInt64).toNat : ℚ) / (9223372036854775808 : UInt64).toNat⌉₊ =
      2 := by
    rw [Nat.ceil_eq_iff (by decide)]
    norm_num [UInt64.toNat]
  rw [two] at length_eq
  refine ⟨pos, length_eq, ⟨⟨0, 9223372036854775808⟩, by decide, ?_⟩, ?_⟩
  · exact (full 0 _ (by decide)).2 (by rw [length_eq]; decide)
  · exact (ranges_tile_object 18446744073709551615 0).2.2.2.1 rfl (by decide)

end Ferry.Part
