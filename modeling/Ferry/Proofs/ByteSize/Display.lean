import Ferry.ByteSize
import Ferry.Proofs.Numeric.Rounding
import Ferry.Proofs.Text.Numeral
import Mathlib.Order.Bounds.Basic
import Mathlib.Tactic.IntervalCases

/-!
What a byte count is shown as, and what the text says when it is read as the exact number that it
is (`shown?`). A count of at least 1024 is rounded twice, to 53 binary digits and to a tenth of its
unit (`IsDisplay`), and the unit is chosen between the two.

The order of counts is kept: both roundings keep it within a unit, and from one unit to the next the
numbers shown stay apart, since none is below 1.0 or above 1023.5 (`quantity_mono`).
-/
namespace Ferry.ByteSize

open Ferry.Text Ferry.Numeric

/-! ### What a text shows -/

/-- The units as they stand after a number, with their bytes. -/
def unitNames : List (String × ℕ) :=
  [("Byte", 1), ("Bytes", 1), ("KiB", 1024), ("MiB", 1024 ^ 2), ("GiB", 1024 ^ 3),
    ("TiB", 1024 ^ 4), ("PiB", 1024 ^ 5), ("EiB", 1024 ^ 6)]

/-- The number that digits denote, with a point and places after it or without. -/
def decimal? (s : List Char) : Option ℚ :=
  match cutFirst '.' s with
  | none => (readNumeral? s).map fun n => (n : ℚ)
  | some (whole, places) => do
    let n ← readNumeral? whole
    let m ← readNumeral? places
    some (n + m / 10 ^ places.length)

/-- The bytes that a text shows: a number, a space and a unit. -/
def shown? (s : String) : Option ℚ := do
  let (number, name) ← cutFirst ' ' s.toList
  let n ← decimal? number
  let bytes ← unitNames.lookup (String.ofList name)
  some (n * bytes)

theorem readNumeral?_toString (n : ℕ) : readNumeral? (toString n).toList = some n := by
  have digits : (toString n).toList = Nat.toDigits 10 n := Nat.toList_repr
  obtain ⟨c, ds, eq, -, -⟩ := toDigits_eq_cons n
  have read := readDigits_toDigits n
  rw [digits, eq] at *
  exact read

theorem not_mem_toString {c : Char} (n : ℕ) (no_digit : isDigit c = false) :
    c ∉ (toString n).toList := by
  intro mem
  have digits : (toString n).toList = Nat.toDigits 10 n := Nat.toList_repr
  rw [digits] at mem
  rw [isDigit_of_mem_toDigits mem] at no_digit
  cases no_digit

theorem decimal?_toString (n : ℕ) : decimal? (toString n).toList = some (n : ℚ) := by
  have no_point := cutFirst_eq_none_iff.2 (not_mem_toString (c := '.') n rfl)
  rw [decimal?, no_point, readNumeral?_toString]
  rfl

theorem tenthsText_toList (tenths : ℕ) : (tenthsText tenths).toList =
    (toString (tenths / 10)).toList ++ '.' :: (toString (tenths % 10)).toList := by
  simp [tenthsText]

/-- The last digit of a number of tenths stands alone behind the point. -/
theorem decimal?_tenthsText (tenths : ℕ) :
    decimal? (tenthsText tenths).toList = some ((tenths : ℚ) / 10) := by
  have digit : (toString (tenths % 10)).toList.length = 1 := by
    have digits : (toString (tenths % 10)).toList = Nat.toDigits 10 (tenths % 10) :=
      Nat.toList_repr
    rw [digits, Nat.toDigits_of_lt_base (Nat.mod_lt _ (by decide))]
    rfl
  have cut := cutFirst_append (not_mem_toString (c := '.') (tenths / 10) rfl)
    (toString (tenths % 10)).toList
  have parts : (tenths : ℚ) = 10 * (tenths / 10 : ℕ) + (tenths % 10 : ℕ) := by
    exact_mod_cast (Nat.div_add_mod tenths 10).symm
  simp only [decimal?, tenthsText_toList, cut, readNumeral?_toString, digit, Option.bind_eq_bind,
    Option.bind_some, Option.some.injEq, pow_one]
  rw [parts]
  ring

theorem shown?_append {number name : String} {n : ℚ} {bytes : ℕ} (no_space : ' ' ∉ number.toList)
    (read : decimal? number.toList = some n) (unit : unitNames.lookup name = some bytes) :
    shown? (number ++ " " ++ name) = some (n * bytes) := by
  have cut : cutFirst ' ' (number ++ " " ++ name).toList = some (number.toList, name.toList) := by
    have chars : (number ++ " " ++ name).toList = number.toList ++ ' ' :: name.toList := by simp
    rw [chars, cutFirst_append no_space]
  simp only [shown?, cut, read, String.ofList_toList, unit, Option.bind_eq_bind, Option.bind_some]

/-! ### What is shown -/

/-- The unit of a power is large enough for a number of bytes: they come to less than 1023.5. -/
def Suffices (bytes power : ℕ) : Prop := (bytes : ℚ) / 1024 ^ power < 2047 / 2

/-- A count is shown as `tenths` tenths of the unit of a power: it is first rounded to `bytes`, of
53 binary digits, and these are rounded to tenths of the least unit that suffices. -/
structure IsDisplay (count bytes power tenths : ℕ) : Prop where
  precise : IsNearest (precise 53) (precise 52) count bytes
  least : IsLeast {k | 1 ≤ k ∧ Suffices bytes k} power
  nearest : IsNearest (multiples (1 / 10)) (multiples (2 / 10)) (bytes / 1024 ^ power) (tenths / 10)

variable {bytes power : ℕ} {name : String}

theorem suffices_iff : Suffices bytes power ↔ 2 * bytes < 2047 * 1024 ^ power := by
  have pos : (0 : ℚ) < 1024 ^ power := by positivity
  rw [Suffices, div_lt_div_iff₀ pos two_pos]
  constructor <;> intro lt
  · have lt' : (2 : ℚ) * bytes < 2047 * 1024 ^ power := by linarith
    exact_mod_cast lt'
  · have lt' : (2 : ℚ) * bytes < 2047 * 1024 ^ power := by exact_mod_cast lt
    linarith

theorem Suffices.of_le {bytes' : ℕ} (suffices' : Suffices bytes power) (le : bytes' ≤ bytes) :
    Suffices bytes' power := by
  rw [suffices_iff] at *
  omega

theorem scale_suffices_iff : roundHalfUp bytes (unit power) < 1024 ↔ Suffices bytes power := by
  have unit_eq : unit power = 1024 ^ power := rfl
  rw [suffices_iff, unit_eq, roundHalfUp_lt_iff (by positivity)]
  omega

/-- The scales are those of the powers from 1 to 6, each once. -/
theorem scales_powers : (∀ scale ∈ scales, 1 ≤ scale.1 ∧ scale.1 ≤ 6) ∧
    (∀ power ≤ 6, 1 ≤ power → ∃ scale ∈ scales, scale.1 = power) ∧
    scales.Pairwise fun scale larger => scale.1 < larger.1 := by
  decide

/-- A scale is found for any number of bytes up to `2 ^ 64`, and it is the first that suffices. -/
theorem exists_scaleOf? (le : bytes ≤ 2 ^ 64) : ∃ power name, scaleOf? bytes = some (power, name) ∧
    (power, name) ∈ scales ∧ IsLeast {k | 1 ≤ k ∧ Suffices bytes k} power := by
  have last : Suffices bytes 6 := by
    rw [suffices_iff]
    omega
  cases found : scaleOf? bytes with
  | none =>
    have none_suffices := List.find?_eq_none.1 found (6, "EiB") (by decide)
    rw [decide_eq_true_iff, scale_suffices_iff] at none_suffices
    exact absurd last none_suffices
  | some scale =>
    obtain ⟨power, name⟩ := scale
    obtain ⟨enough, before, after, eq, too_small⟩ := List.find?_eq_some_iff_append.1 found
    rw [decide_eq_true_iff, scale_suffices_iff] at enough
    have mem : (power, name) ∈ scales := List.mem_of_find?_eq_some found
    obtain ⟨bounds, every, sorted⟩ := scales_powers
    refine ⟨power, name, rfl, mem, ⟨(bounds _ mem).1, enough⟩, ?_⟩
    -- a smaller power that suffices would stand before, where none does
    rintro k ⟨pos, suffices'⟩
    by_contra smaller
    rw [not_le] at smaller
    obtain ⟨scale, scale_mem, rfl⟩ := every k (smaller.le.trans (bounds _ mem).2) pos
    rw [eq] at scale_mem sorted
    obtain first | rfl | later := List.mem_append.1 scale_mem |>.imp_right List.mem_cons.1
    · have unfit := too_small scale first
      rw [Bool.not_eq_true', decide_eq_false_iff_not, scale_suffices_iff] at unfit
      exact unfit suffices'
    · exact smaller.false
    · have larger := (List.pairwise_cons.1 (List.pairwise_append.1 sorted).2.1).1 scale later
      exact smaller.not_gt larger

/-- The number shown in the least unit that suffices is neither below 1.0 nor above 1023.5: with
fewer than 1023.5 bytes in the unit below it is almost 1 at least, and rounded to it. -/
theorem inUnit_bounds (large : 1024 ≤ bytes)
    (least : IsLeast {k | 1 ≤ k ∧ Suffices bytes k} power) :
    10 ≤ inUnit bytes power ∧ inUnit bytes power ≤ 10235 := by
  obtain ⟨⟨pos, enough⟩, minimal⟩ := least
  have unit_pos : 0 < 1024 ^ power := by positivity
  have almost : 2047 * 1024 ^ power ≤ 2048 * bytes := by
    obtain ⟨k, rfl⟩ := Nat.exists_eq_succ_of_ne_zero (Nat.pos_iff_ne_zero.1 pos)
    by_cases first : k = 0
    · subst first
      omega
    · have too_small : ¬ Suffices bytes k := fun suffices' =>
        absurd (minimal ⟨Nat.pos_of_ne_zero first, suffices'⟩) (by omega)
      rw [suffices_iff] at too_small
      rw [Nat.succ_eq_add_one, pow_succ]
      omega
  rw [suffices_iff] at enough
  have unit_eq : unit power = 1024 ^ power := rfl
  have rounded := roundHalfEven_bounds (10 * bytes) unit_pos
  rw [inUnit, unit_eq]
  generalize roundHalfEven (10 * bytes) (1024 ^ power) = tenths at *
  generalize 1024 ^ power = u at *
  constructor
  · by_contra few
    have le : (2 * tenths + 1) * u ≤ 19 * u := Nat.mul_le_mul_right u (by omega)
    omega
  · by_contra many
    have le : 20472 * u ≤ 2 * tenths * u := Nat.mul_le_mul_right u (by omega)
    omega

theorem toPrecision_bounds {count : ℕ} (large : 1024 ≤ count) (lt : count < 2 ^ 64) :
    1024 ≤ toPrecision 53 count ∧ toPrecision 53 count ≤ 2 ^ 64 := by
  have first : toPrecision 53 1024 = 1024 := toPrecision_of_le (by decide) (by decide)
  have last : toPrecision 53 (2 ^ 64) = 2 ^ 64 := by decide
  have lower := toPrecision_mono 52 (by decide) large
  have upper := toPrecision_mono 52 (by decide) lt.le
  rw [first] at lower
  rw [last] at upper
  exact ⟨lower, upper⟩

theorem nearest_inUnit (bytes power : ℕ) : IsNearest (multiples (1 / 10)) (multiples (2 / 10))
    (bytes / 1024 ^ power) (inUnit bytes power / 10) := by
  have unit_pos : 0 < 1024 ^ power := by positivity
  have even_mem : Even (roundHalfEven (10 * bytes) (1024 ^ power)) →
      (roundHalfEven (10 * bytes) (1024 ^ power) * (1 / 10) : ℚ) ∈ multiples (2 / 10) := by
    rintro ⟨k, halves⟩
    refine ⟨k, ?_⟩
    rw [halves]
    push_cast
    ring
  have near := isNearest_roundHalfEven (u := 1 / 10) unit_pos (by norm_num) even_mem
  have scaled : ((10 * bytes : ℕ) : ℚ) / (1024 ^ power : ℕ) * (1 / 10) = bytes / 1024 ^ power := by
    push_cast
    ring
  rw [scaled, mul_one_div] at near
  exact near

/-- Every count of at least 1024 has a display, and its text is the one that displays it. -/
theorem exists_display {count : ℕ} (large : 1024 ≤ count) (lt : count < 2 ^ 64) :
    ∃ power name, (power, name) ∈ scales ∧
      scaleOf? (toPrecision 53 count) = some (power, name) ∧
      IsDisplay count (toPrecision 53 count) power (inUnit (toPrecision 53 count) power) ∧
      text count = tenthsText (inUnit (toPrecision 53 count) power) ++ " " ++ name := by
  obtain ⟨-, le⟩ := toPrecision_bounds large lt
  obtain ⟨power, name, found, mem, least⟩ := exists_scaleOf? le
  have many : count ≠ 1 ∧ ¬ count < 1024 := by omega
  refine ⟨power, name, mem, found, ⟨?_, least, nearest_inUnit _ _⟩, ?_⟩
  · exact isNearest_toPrecision 52 (by decide) count
  · simp only [text, if_neg many.1, if_neg many.2, found, Option.getD_some]

/-! ### The order of what is shown -/

/-- The bytes that the tenths of a unit come to. -/
def quantity (bytes power : ℕ) : ℚ := inUnit bytes power / 10 * 1024 ^ power

theorem unitNames_scales :
    ∀ scale ∈ scales, unitNames.lookup scale.2 = some (1024 ^ scale.1) := by
  decide

theorem shown?_tenthsText {tenths : ℕ} (mem : (power, name) ∈ scales) :
    shown? (tenthsText tenths ++ " " ++ name) = some ((tenths : ℚ) / 10 * 1024 ^ power) := by
  have no_space : ' ' ∉ (tenthsText tenths).toList := by
    rw [tenthsText_toList, List.mem_append, List.mem_cons, not_or, not_or]
    exact ⟨not_mem_toString _ rfl, by decide, not_mem_toString _ rfl⟩
  rw [shown?_append no_space (decimal?_tenthsText tenths) (unitNames_scales _ mem)]
  push_cast
  rfl

theorem shown?_of_lt {count : ℕ} (lt : count < 1024) : shown? (text count) = some (count : ℚ) := by
  have words : text count = toString count ++ " " ++ if count = 1 then "Byte" else "Bytes" := by
    unfold text
    rw [if_pos lt, String.append_assoc]
    by_cases one : count = 1
    · rw [if_pos one, if_pos one, one]
      decide
    · rw [if_neg one, if_neg one]
      congr 1
  have unit : unitNames.lookup (if count = 1 then "Byte" else "Bytes") = some 1 := by
    split <;> rfl
  rw [words, shown?_append (not_mem_toString count rfl) (decimal?_toString count) unit,
    Nat.cast_one, mul_one]

/-- At least 1.0 is shown, -/
theorem unit_le_quantity (large : 1024 ≤ bytes)
    (least : IsLeast {k | 1 ≤ k ∧ Suffices bytes k} power) :
    1024 ^ power ≤ quantity bytes power := by
  have some_unit : (10 : ℚ) ≤ inUnit bytes power := by
    exact_mod_cast (inUnit_bounds large least).1
  calc (1024 : ℚ) ^ power = 10 / 10 * 1024 ^ power := by ring
    _ ≤ quantity bytes power := by unfold quantity; gcongr

/-- and less than the next unit. -/
theorem quantity_le_next (large : 1024 ≤ bytes)
    (least : IsLeast {k | 1 ≤ k ∧ Suffices bytes k} power) :
    quantity bytes power ≤ 1024 ^ (power + 1) := by
  have most : (inUnit bytes power : ℚ) ≤ 10235 := by
    exact_mod_cast (inUnit_bounds large least).2
  calc quantity bytes power ≤ 10235 / 10 * 1024 ^ power := by unfold quantity; gcongr
    _ ≤ 1024 * 1024 ^ power := by gcongr; norm_num
    _ = 1024 ^ (power + 1) := (pow_succ' _ _).symm

/-- More bytes are shown as a quantity at least as large: in the same unit because rounding keeps
the order, and in a larger one because there at least 1.0 is shown, and before at most 1023.5. -/
theorem quantity_mono {bytes' power' : ℕ} (large : 1024 ≤ bytes) (le : bytes ≤ bytes')
    (least : IsLeast {k | 1 ≤ k ∧ Suffices bytes k} power)
    (least' : IsLeast {k | 1 ≤ k ∧ Suffices bytes' k} power') :
    quantity bytes power ≤ quantity bytes' power' := by
  have power_le : power ≤ power' := least.2 ⟨least'.1.1, least'.1.2.of_le le⟩
  have unit_pos : 0 < 1024 ^ power := by positivity
  obtain lt | rfl := Nat.lt_or_eq_of_le power_le
  · calc quantity bytes power ≤ 1024 ^ (power + 1) := quantity_le_next large least
      _ ≤ 1024 ^ power' := pow_le_pow_right₀ (by norm_num) lt
      _ ≤ quantity bytes' power' := unit_le_quantity (large.trans le) least'
  · have ordered : inUnit bytes power ≤ inUnit bytes' power :=
      roundHalfEven_mono unit_pos (by omega)
    unfold quantity
    gcongr

/-- The text of a count says as many bytes as there are, or, from 1024 on, the nearest tenth of the
least unit of which there are fewer than 1023.5, where counts of more than 53 binary digits are
rounded to so many first. There is such a unit, and the number shown in it is neither below 1.0 nor
above 1023.5. What is shown of more bytes is never less. -/
theorem texts_show_nearest_in_order :
    (∀ count : UInt64, count.toNat < 1024 → shown? (text count.toNat) = some (count.toNat : ℚ)) ∧
    (∀ count : UInt64, 1024 ≤ count.toNat → ∃ bytes power tenths name,
      IsDisplay count.toNat bytes power tenths ∧ (count.toNat ≤ 2 ^ 53 → bytes = count.toNat) ∧
      (power, name) ∈ scales ∧ scaleOf? bytes = some (power, name) ∧
      10 ≤ tenths ∧ tenths ≤ 10235 ∧ text count.toNat = tenthsText tenths ++ " " ++ name ∧
      shown? (text count.toNat) = some ((tenths : ℚ) / 10 * 1024 ^ power)) ∧
    ∀ count count' : UInt64, count ≤ count' → ∃ shown shown',
      shown? (text count.toNat) = some shown ∧ shown? (text count'.toNat) = some shown' ∧
        shown ≤ shown' := by
  refine ⟨fun count => shown?_of_lt, ?_, ?_⟩
  · intro count large
    obtain ⟨power, name, mem, found, shown, written⟩ := exists_display large count.toNat_lt
    obtain ⟨lower, upper⟩ := inUnit_bounds (toPrecision_bounds large count.toNat_lt).1 shown.least
    refine ⟨_, power, _, name, shown, toPrecision_of_le (by decide), mem, found, lower, upper,
      written, ?_⟩
    rw [written, shown?_tenthsText mem]
  · intro count count' le
    have le : count.toNat ≤ count'.toNat := UInt64.le_iff_toNat_le.1 le
    by_cases small' : count'.toNat < 1024
    · exact ⟨_, _, shown?_of_lt (by omega), shown?_of_lt small', by exact_mod_cast le⟩
    have large' := Nat.not_lt.1 small'
    obtain ⟨power', name', mem', -, shown', written'⟩ :=
      exists_display large' count'.toNat_lt
    obtain ⟨bytes_large', -⟩ := toPrecision_bounds large' count'.toNat_lt
    rw [written', shown?_tenthsText mem']
    by_cases small : count.toNat < 1024
    · refine ⟨_, _, shown?_of_lt small, rfl, ?_⟩
      calc (count.toNat : ℚ) ≤ 1024 := by exact_mod_cast small.le
        _ = 1024 ^ 1 := (pow_one _).symm
        _ ≤ 1024 ^ power' := pow_le_pow_right₀ (by norm_num) shown'.least.1.1
        _ ≤ _ := unit_le_quantity bytes_large' shown'.least
    have large := Nat.not_lt.1 small
    obtain ⟨power, name, mem, -, shown, written⟩ := exists_display large count.toNat_lt
    rw [written, shown?_tenthsText mem]
    exact ⟨_, _, rfl, rfl, quantity_mono (toPrecision_bounds large count.toNat_lt).1
      (toPrecision_mono 52 (by decide) le) shown.least shown'.least⟩

/-- A byte less than a mebibyte is shown as one, and of two tenths that are as near the even one. -/
example : text 1048575 = "1.0 MiB" ∧ text 1280 = "1.2 KiB" := by decide

end Ferry.ByteSize
