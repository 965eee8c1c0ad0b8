import Ferry.ByteSize
import Mathlib.Algebra.Group.Nat.Defs
import Mathlib.Data.List.Basic

/-!
The texts that are sizes, as a grammar (`IsSize`), and that these are the texts that are read, each
as what it stands for. A suffix is looked for at a byte that its last two letters suggest: that
byte is where every suffix begins (`splitSuffix?_append`), and what is found there is one
(`eq_append_of_splitSuffix?`). Taking letters as small ones changes neither blanks nor counts
(`trimBlanks_lowerAscii`, `readCount?_lowerAscii`).
-/
namespace Ferry.ByteSize

open Ferry.Text

/-- The number that digits denote. -/
def denoted (digits : List Char) : Nat := digits.foldl (fun n c => 10 * n + (c.toNat - 48)) 0

/-- One or more digits that denote a number of 64 bits. -/
structure IsWord (s : List Char) (n : Nat) : Prop where
  some_digit : s ≠ []
  digits : ∀ c ∈ s, '0' ≤ c ∧ c ≤ '9'
  value : denoted s = n
  fits : n < 2 ^ 64

/-- A count: a number, with a plus sign or without. -/
inductive IsCount : List Char → Nat → Prop
  | plain {s n} (word : IsWord s n) : IsCount s n
  | signed {s n} (word : IsWord s n) : IsCount ('+' :: s) n

/-- The letters of the units with their powers of 1024. -/
def letters : List (Char × Nat) := [('k', 1), ('m', 2), ('g', 3), ('t', 4), ('p', 5), ('e', 6)]

/-- A suffix: the letter of a unit and `b`, an `i` between them or not, small or not. -/
def IsSuffix (s : List Char) (power : Nat) : Prop :=
  ∃ c, (c, power) ∈ letters ∧ (lowerAscii s = [c, 'b'] ∨ lowerAscii s = [c, 'i', 'b'])

/-- What may follow a count: nothing, or a suffix, white space before it or not. -/
inductive IsUnit : List Char → Nat → Prop
  | none : IsUnit [] 0
  | suffix {gap name power} (blank : ∀ c ∈ gap, isBlank c = true) (spelled : IsSuffix name power) :
      IsUnit (gap ++ name) power

/-- A count and its unit, white space around them or not. -/
inductive IsMeasure : List Char → Nat → Nat → Prop
  | intro {lead number rest trail n power} (front : ∀ c ∈ lead, isBlank c = true)
      (count : IsCount number n) (unit : IsUnit rest power)
      (back : ∀ c ∈ trail, isBlank c = true) :
      IsMeasure (lead ++ (number ++ rest) ++ trail) n power

/-- A text that stands for so many bytes: a count and its unit whose product has 64 bits. -/
def IsSize (s : List Char) (bytes : Nat) : Prop :=
  ∃ n power, IsMeasure s n power ∧ n * 1024 ^ power < 2 ^ 64 ∧ n * 1024 ^ power = bytes

/-- The byte at which a suffix would begin is within a character. -/
def CutsCharacter (low : List Char) : Prop :=
  ∃ start, suffixStart? low = some start ∧
    ∀ front back, low = front ++ back → (Utf8.encode front).length ≠ start

theorem readDigits_eq_some_iff {s : List Char} {n m : Nat} : readDigits n s = some m ↔
    (∀ c ∈ s, '0' ≤ c ∧ c ≤ '9') ∧ s.foldl (fun n c => 10 * n + (c.toNat - 48)) n = m := by
  induction s generalizing n with
  | nil => simp [readDigits]
  | cons c s ih =>
    by_cases digit : '0' ≤ c ∧ c ≤ '9'
    · simp [readDigits, digit?, digit, ih]
    · simp [readDigits, digit?, digit]

theorem readWord?_eq_some_iff {s : List Char} {n : Nat} :
    readWord? s = some n ↔ IsWord s n := by
  have numeral : readNumeral? s = some n ↔ s ≠ [] ∧ (∀ c ∈ s, '0' ≤ c ∧ c ≤ '9') ∧
      denoted s = n := by
    cases s with
    | nil => simp [readNumeral?]
    | cons c s => simp [readNumeral?, readDigits_eq_some_iff, denoted]
  rw [readWord?, Option.filter_eq_some_iff, numeral, decide_eq_true_iff]
  constructor
  · rintro ⟨⟨some_digit, digits, value⟩, fits⟩
    exact ⟨some_digit, digits, value, fits⟩
  · rintro ⟨some_digit, digits, value, fits⟩
    exact ⟨⟨some_digit, digits, value⟩, fits⟩

theorem readCount?_eq_some_iff {s : List Char} {n : Nat} :
    readCount? s = some n ↔ IsCount s n := by
  constructor
  · intro read
    unfold readCount? at read
    split at read
    · exact .signed (readWord?_eq_some_iff.1 read)
    · exact .plain (readWord?_eq_some_iff.1 read)
  · intro count
    cases count with
    | plain word =>
      have unsigned : ∀ digits, s ≠ '+' :: digits := by
        rintro digits rfl
        exact absurd (word.digits '+' List.mem_cons_self) (by decide)
      rw [readCount?.eq_2 s unsigned, readWord?_eq_some_iff]
      exact word
    | signed word => exact readWord?_eq_some_iff.2 word

namespace IsCount
variable {s : List Char} {n : Nat}

/-- The characters of a count are digits and the plus sign. -/
theorem bounds (count : IsCount s n) : ∀ c ∈ s, 43 ≤ c.toNat ∧ c.toNat ≤ 57 := by
  have digit {c : Char} (h : '0' ≤ c ∧ c ≤ '9') : 43 ≤ c.toNat ∧ c.toNat ≤ 57 := by
    have lower : 48 ≤ c.toNat := h.1
    have upper : c.toNat ≤ 57 := h.2
    omega
  intro c mem
  cases count with
  | plain word => exact digit (word.digits c mem)
  | signed word =>
    rcases List.mem_cons.1 mem with rfl | mem
    · decide
    · exact digit (word.digits c mem)

theorem ne_nil (count : IsCount s n) : s ≠ [] := by
  cases count with
  | plain word => exact word.some_digit
  | signed word => exact List.cons_ne_nil _ _

theorem fits (count : IsCount s n) : n < 2 ^ 64 := by
  cases count with
  | plain word => exact word.fits
  | signed word => exact word.fits

theorem no_blank (count : IsCount s n) : ∀ c ∈ s, isBlank c = false := by
  intro c mem
  have bounds := count.bounds c mem
  simp [isBlank]
  omega

theorem one_byte (count : IsCount s n) : ∀ c ∈ s, c.utf8Size = 1 := by
  intro c mem
  have small : c.val ≤ 127 := by
    show c.toNat ≤ 127
    have := (count.bounds c mem).2
    omega
  simp [Char.utf8Size, small]

end IsCount

theorem toLower_eq_self {c : Char} (small : c.toNat ≤ 57 ∨ c.toLower.toNat ≤ 57) :
    c.toLower = c := by
  apply Char.toNat_inj.1
  rw [toNat_toLower] at small ⊢
  split <;> rename_i upper
  · rw [if_pos upper] at small
    omega
  · rfl

theorem lowerAscii_eq_self {s : List Char} (small : ∀ c ∈ s, c.toNat ≤ 57 ∨ c.toLower.toNat ≤ 57) :
    lowerAscii s = s := by
  rw [lowerAscii, List.map_congr_left fun c mem => toLower_eq_self (small c mem), List.map_id']

theorem lowerAscii_append (s t : List Char) : lowerAscii (s ++ t) = lowerAscii s ++ lowerAscii t :=
  List.map_append

theorem readCount?_lowerAscii (s : List Char) : readCount? (lowerAscii s) = readCount? s := by
  -- a count has no letters, so that it is its own text in small ones
  have same {n : Nat} (count : IsCount (lowerAscii s) n ∨ IsCount s n) : lowerAscii s = s := by
    refine lowerAscii_eq_self fun c mem => ?_
    rcases count with lowered | count
    · exact .inr (lowered.bounds _ (List.mem_map_of_mem mem)).2
    · exact .inl (count.bounds c mem).2
  ext n
  simp only [readCount?_eq_some_iff]
  constructor
  · intro count
    rwa [same (.inl count)] at count
  · intro count
    rwa [same (.inr count)]

/-! ### The suffix of a text -/

theorem suffixes_spell_letters : ∀ row ∈ suffixes, ∃ letter ∈ letters, letter.2 = row.2 ∧
    (row.1.toList = [letter.1, 'b'] ∨ row.1.toList = [letter.1, 'i', 'b']) := by
  decide

theorem letters_have_suffixes : ∀ letter ∈ letters,
    power? [letter.1, 'b'] = some letter.2 ∧ power? [letter.1, 'i', 'b'] = some letter.2 := by
  decide

theorem power?_eq_some_iff {name : List Char} {power : Nat} : power? name = some power ↔
    ∃ c, (c, power) ∈ letters ∧ (name = [c, 'b'] ∨ name = [c, 'i', 'b']) := by
  constructor
  · intro found
    obtain ⟨before, after, eq, -⟩ := List.lookup_eq_some_iff.1 found
    have row : (String.ofList name, power) ∈ suffixes := by simp [eq]
    obtain ⟨⟨c, k⟩, letter, rfl, spelled⟩ := suffixes_spell_letters _ row
    rw [String.toList_ofList] at spelled
    exact ⟨c, letter, spelled⟩
  · rintro ⟨c, letter, rfl | rfl⟩
    · exact (letters_have_suffixes _ letter).1
    · exact (letters_have_suffixes _ letter).2

theorem isSuffix_iff {s : List Char} {power : Nat} :
    IsSuffix s power ↔ power? (lowerAscii s) = some power :=
  power?_eq_some_iff.symm

theorem suffixLength_append (t : List Char) {name : List Char} (two_letters : 2 ≤ name.length) :
    suffixLength (t ++ name) = suffixLength name := by
  have same : ['i', 'b'].isSuffixOf (t ++ name) = ['i', 'b'].isSuffixOf name := by
    rw [Bool.eq_iff_iff, List.isSuffixOf_iff_suffix, List.isSuffixOf_iff_suffix]
    constructor
    · intro ending
      exact List.suffix_of_suffix_length_le ending (List.suffix_append t name) two_letters
    · intro ending
      exact ending.trans (List.suffix_append t name)
  rw [suffixLength, suffixLength, same]

theorem suffixLength_letters : ∀ letter ∈ letters,
    suffixLength [letter.1, 'b'] = (Utf8.encode [letter.1, 'b']).length ∧
      suffixLength [letter.1, 'i', 'b'] = (Utf8.encode [letter.1, 'i', 'b']).length := by
  decide

/-- The length that the last two letters tell is that of the suffix. -/
theorem suffixLength_of_power? {name : List Char} {power : Nat} (spelled : power? name = some power)
    (t : List Char) : suffixLength (t ++ name) = (Utf8.encode name).length := by
  obtain ⟨c, letter, rfl | rfl⟩ := power?_eq_some_iff.1 spelled
  · rw [suffixLength_append t (by simp), (suffixLength_letters _ letter).1]
  · rw [suffixLength_append t (by simp), (suffixLength_letters _ letter).2]

theorem splitSuffix?_append {name : List Char} {power : Nat} (spelled : power? name = some power)
    (number : List Char) : splitSuffix? (number ++ name) = some (number, power) := by
  have start : suffixStart? (number ++ name) = some (Utf8.encode number).length := by
    rw [suffixStart?, suffixLength_of_power? spelled, Utf8.encode_append, List.length_append]
    simp
  rw [splitSuffix?, start, Option.bind_some, Utf8.splitAt?_append, Option.bind_some]
  exact congrArg (Option.map fun power => (number, power)) spelled

theorem eq_append_of_splitSuffix? {low number : List Char} {power : Nat}
    (split : splitSuffix? low = some (number, power)) :
    ∃ name, low = number ++ name ∧ power? name = some power := by
  obtain ⟨start, -, cut⟩ := Option.bind_eq_some_iff.1 split
  obtain ⟨⟨front, name⟩, parts, named⟩ := Option.bind_eq_some_iff.1 cut
  obtain ⟨_, spelled, eq⟩ := Option.map_eq_some_iff.1 named
  obtain ⟨rfl, rfl⟩ := Prod.mk.inj eq
  exact ⟨name, (Utf8.eq_append_of_splitAt? parts).1, spelled⟩

theorem cutsCharacter_iff {low : List Char} : CutsCharacter low ↔
    ∃ start, suffixStart? low = some start ∧ Utf8.splitAt? low start = none := by
  refine exists_congr fun start => and_congr_right fun _ => ?_
  rw [Option.eq_none_iff_forall_ne_some]
  constructor
  · rintro within ⟨front, back⟩ parts
    obtain ⟨whole, length⟩ := Utf8.eq_append_of_splitAt? parts
    exact within front back whole length
  · intro no_parts front back whole length
    exact no_parts (front, back) (Utf8.splitAt?_eq_some_iff.2 ⟨whole, length⟩)

theorem CutsCharacter.splitSuffix?_eq_none {low : List Char} (cuts : CutsCharacter low) :
    splitSuffix? low = none := by
  obtain ⟨start, found, no_parts⟩ := cutsCharacter_iff.1 cuts
  rw [splitSuffix?, found, Option.bind_some, no_parts, Option.bind_none]

theorem IsCount.splitSuffix?_eq_none {s : List Char} {n : Nat} (count : IsCount s n) :
    splitSuffix? s = none := by
  rw [Option.eq_none_iff_forall_ne_some]
  rintro ⟨number, power⟩ split
  obtain ⟨name, rfl, spelled⟩ := eq_append_of_splitSuffix? split
  have b : 'b' ∈ number ++ name := by
    obtain ⟨c, -, rfl | rfl⟩ := power?_eq_some_iff.1 spelled <;> simp
  exact absurd (count.bounds 'b' b).2 (by decide)

theorem IsCount.not_cutsCharacter {s : List Char} {n : Nat} (count : IsCount s n) :
    ¬ CutsCharacter s := by
  rintro ⟨start, found, within⟩
  have bound : start ≤ s.length := by
    rw [suffixStart?] at found
    split at found <;> cases found
    rw [Utf8.length_encode_of_one_byte count.one_byte]
    omega
  -- every byte of a count begins a character
  apply within (s.take start) (s.drop start) (List.take_append_drop start s).symm
  rw [Utf8.length_encode_of_one_byte fun c mem => count.one_byte c (List.mem_of_mem_take mem),
    List.length_take, Nat.min_eq_left bound]

/-! ### What is read -/

theorem IsSuffix.ne_nil {name : List Char} {power : Nat} (suffix : IsSuffix name power) :
    name ≠ [] := by
  rintro rfl
  obtain ⟨c, -, spelled | spelled⟩ := suffix <;> cases spelled

theorem IsSuffix.no_blank {name : List Char} {power : Nat} (suffix : IsSuffix name power) :
    ∀ c ∈ name, isBlank c = false := by
  have plain : ∀ letter ∈ letters, ∀ c ∈ [letter.1, 'i', 'b'], isBlank c = false := by
    simp [letters, isBlank]
  intro c mem
  have lowered : c.toLower ∈ lowerAscii name := List.mem_map_of_mem mem
  obtain ⟨d, letter, spelled⟩ := suffix
  rw [← isBlank_toLower]
  apply plain _ letter
  rcases spelled with short | long
  · have among : [d, 'b'] ⊆ [d, 'i', 'b'] := by simp
    exact among (short ▸ lowered)
  · rwa [long] at lowered

/-- The white space around a size is what it is without. -/
theorem trimBlanks_size {lead number rest trail : List Char} {n power : Nat}
    (front : ∀ c ∈ lead, isBlank c = true) (count : IsCount number n) (unit : IsUnit rest power)
    (back : ∀ c ∈ trail, isBlank c = true) :
    trimBlanks (lead ++ (number ++ rest) ++ trail) = number ++ rest := by
  refine trimBoth_append front back (by simp [count.ne_nil]) ?_ ?_
  · rw [List.head?_append_of_ne_nil number count.ne_nil]
    exact fun c mem => count.no_blank c (List.mem_of_mem_head? mem)
  · cases unit with
    | none =>
      rw [List.append_nil]
      exact fun c mem => count.no_blank c (List.mem_of_getLast? mem)
    | suffix blank suffix =>
      rw [← List.append_assoc, List.getLast?_append_of_ne_nil _ suffix.ne_nil]
      exact fun c mem => suffix.no_blank c (List.mem_of_getLast? mem)

theorem IsCount.trimBlanks_eq {number gap : List Char} {n : Nat} (count : IsCount number n)
    (blank : ∀ c ∈ gap, isBlank c = true) : trimBlanks (number ++ gap) = number := by
  have bare := trimBlanks_size (List.forall_mem_nil _) count .none blank
  rwa [List.append_nil] at bare

theorem trimBlanks_append_suffix {name : List Char} {power : Nat} (suffix : IsSuffix name power)
    (t : List Char) : trimBlanks (t ++ name) = t.dropWhile isBlank ++ name := by
  have whole : t ++ name = t.takeWhile isBlank ++ (t.dropWhile isBlank ++ name) ++ [] := by
    rw [List.append_nil, ← List.append_assoc, List.takeWhile_append_dropWhile]
  rw [whole]
  refine trimBoth_append (fun c mem => List.all_eq_true.1 List.all_takeWhile c mem)
    (List.forall_mem_nil _) (by simp [suffix.ne_nil]) ?_ ?_
  · -- where the text before is blank throughout, the suffix comes first
    have stops := List.head?_dropWhile_not isBlank t
    cases first : t.dropWhile isBlank with
    | nil => exact fun c mem => suffix.no_blank c (List.mem_of_mem_head? mem)
    | cons c rest =>
      rw [first] at stops
      simpa using stops
  · rw [List.getLast?_append_of_ne_nil _ suffix.ne_nil]
    exact fun c mem => suffix.no_blank c (List.mem_of_getLast? mem)

theorem read?_of_suffix {s number name : List Char} {power : Nat}
    (whole : trimBlanks s = number ++ name) (suffix : IsSuffix name power) :
    read? s = (readCount? (trimBlanks number)).bind fun n =>
      if n * 1024 ^ power < 2 ^ 64 then some (n * 1024 ^ power) else none := by
  have split : splitSuffix? (lowerAscii (trimBlanks s)) = some (lowerAscii number, power) := by
    rw [whole, lowerAscii_append, splitSuffix?_append (isSuffix_iff.1 suffix)]
  simp only [read?, split, trimBlanks_lowerAscii, readCount?_lowerAscii]
  rfl

theorem read?_of_no_suffix {s : List Char}
    (no_suffix : splitSuffix? (lowerAscii (trimBlanks s)) = none) :
    read? s = readCount? (trimBlanks s) := by
  simp only [read?, no_suffix, readCount?_lowerAscii]

/-- A count and its unit are read as their product where that has 64 bits, and else not at all. -/
theorem read?_of_isMeasure {s : List Char} {n power : Nat} (measure : IsMeasure s n power) :
    read? s = if n * 1024 ^ power < 2 ^ 64 then some (n * 1024 ^ power) else none := by
  cases measure with
  | @intro lead number rest trail _ _ front count unit back =>
    have trimmed := trimBlanks_size front count unit back
    have read := readCount?_eq_some_iff.2 count
    cases unit with
    | none =>
      rw [List.append_nil] at trimmed ⊢
      have lowered : lowerAscii number = number :=
        lowerAscii_eq_self fun c mem => .inl (count.bounds c mem).2
      rw [read?_of_no_suffix (by rw [trimmed, lowered, count.splitSuffix?_eq_none]), trimmed, read,
        Nat.pow_zero, Nat.mul_one, if_pos count.fits]
    | @suffix gap name _ blank suffix =>
      rw [← List.append_assoc number] at trimmed ⊢
      rw [read?_of_suffix trimmed suffix, count.trimBlanks_eq blank, read, Option.bind_some]

theorem isSize_of_read? {s : List Char} {bytes : Nat} (read : read? s = some bytes) :
    IsSize s bytes := by
  obtain ⟨lead, trail, whole, front, back⟩ := exists_eq_trimBoth isBlank s
  cases split : splitSuffix? (lowerAscii (trimBlanks s)) with
  | none =>
    -- all that is left between the blanks is the count
    rw [read?_of_no_suffix split, readCount?_eq_some_iff] at read
    have measure := IsMeasure.intro front read .none back
    rw [List.append_nil, trimBlanks, ← whole] at measure
    exact ⟨bytes, 0, measure, by simpa using read.fits, by simp⟩
  | some found =>
    obtain ⟨low, power⟩ := found
    obtain ⟨low', eq, spelled⟩ := eq_append_of_splitSuffix? split
    obtain ⟨number, name, cut, rfl, rfl⟩ := List.map_eq_append_iff.1 eq
    have suffix : IsSuffix name power := isSuffix_iff.2 spelled
    rw [read?_of_suffix cut suffix, Option.bind_eq_some_iff] at read
    obtain ⟨n, count, product⟩ := read
    rw [Option.ite_none_right_eq_some, Option.some.injEq] at product
    -- the blanks that the number is rid of stand before it or between it and its suffix
    obtain ⟨lead', gap, inner, front', blank⟩ := exists_eq_trimBoth isBlank number
    have shape : s = (lead ++ lead') ++ (trimBlanks number ++ (gap ++ name)) ++ trail := by
      conv => lhs; rw [whole, ← trimBlanks, cut, inner]
      simp [trimBlanks]
    have measure := IsMeasure.intro (List.forall_mem_append.2 ⟨front, front'⟩)
      (readCount?_eq_some_iff.1 count) (.suffix blank suffix) back
    rw [← shape] at measure
    exact ⟨n, power, measure, product⟩

theorem read?_eq_some_iff {s : List Char} {bytes : Nat} :
    read? s = some bytes ↔ IsSize s bytes := by
  refine ⟨isSize_of_read?, ?_⟩
  rintro ⟨n, power, measure, fits, rfl⟩
  rw [read?_of_isMeasure measure, if_pos fits]

theorem read?_of_cutsCharacter {s : List Char} (cuts : CutsCharacter (lowerAscii (trimBlanks s))) :
    read? s = none := by
  rw [read?_of_no_suffix cuts.splitSuffix?_eq_none, ← readCount?_lowerAscii,
    Option.eq_none_iff_forall_ne_some]
  intro n read
  exact (readCount?_eq_some_iff.1 read).not_cutsCharacter cuts

/-- Two suffixes of one power stand for the same after any text. -/
theorem read?_append_suffix {name name' : List Char} {power : Nat} (suffix : IsSuffix name power)
    (suffix' : IsSuffix name' power) (t : List Char) : read? (t ++ name) = read? (t ++ name') := by
  rw [read?_of_suffix (trimBlanks_append_suffix suffix t) suffix,
    read?_of_suffix (trimBlanks_append_suffix suffix' t) suffix']

theorem read_eq_ok_iff {s : String} {n : Nat} : read s = .ok n ↔ read? s.toList = some n := by
  cases found : read? s.toList <;> simp [read, found]

theorem read_eq_error {s : String} (refused : read? s.toList = none) : read s = .error ⟨s⟩ := by
  simp [read, refused]

/-- A text is read as what the grammar says it stands for. Any other one is refused as it is, one
whose suffix would begin within a character and a count too large in its unit among them. -/
theorem sizes_read_by_grammar (s : String) :
    (∀ n, read s = .ok n ↔ IsSize s.toList n) ∧
      ((∀ n, ¬ IsSize s.toList n) → read s = .error ⟨s⟩) ∧
      (CutsCharacter (lowerAscii (trimBlanks s.toList)) → read s = .error ⟨s⟩) ∧
      (∀ n power, IsMeasure s.toList n power → 2 ^ 64 ≤ n * 1024 ^ power → read s = .error ⟨s⟩) ∧
      ∀ t name name' power, IsSuffix name power → IsSuffix name' power → s.toList = t ++ name →
        ∀ n, read s = .ok n ↔ read (String.ofList (t ++ name')) = .ok n := by
  refine ⟨fun n => ?_, fun no_size => ?_, fun cuts => ?_, fun n power measure large => ?_, ?_⟩
  · rw [read_eq_ok_iff, read?_eq_some_iff]
  · apply read_eq_error
    rw [Option.eq_none_iff_forall_ne_some]
    exact fun n found => no_size n (read?_eq_some_iff.1 found)
  · exact read_eq_error (read?_of_cutsCharacter cuts)
  · apply read_eq_error
    rw [read?_of_isMeasure measure, if_neg (Nat.not_lt.2 large)]
  · intro t name name' power suffix suffix' whole n
    rw [read_eq_ok_iff, read_eq_ok_iff, whole, String.toList_ofList,
      read?_append_suffix suffix suffix']

theorem sizes_read_and_refused :
    read "\u2003+007 KiB\n" = .ok 7168 ∧ read "KiB" = .error ⟨"KiB"⟩ ∧
      read "1\u2713" = .error ⟨"1\u2713"⟩ ∧ read "16EiB" = .error ⟨"16EiB"⟩ ∧
      (read "5KiB" = .ok 5120 ↔ read "5kb" = .ok 5120) := by
  have kibi : IsSuffix ['K', 'i', 'B'] 1 := ⟨'k', by decide, .inr rfl⟩
  have kilo : IsSuffix ['k', 'b'] 1 := ⟨'k', by decide, .inl rfl⟩
  have exbi : IsSuffix ['E', 'i', 'B'] 6 := ⟨'e', by decide, .inr rfl⟩
  have seven : IsMeasure "\u2003+007 KiB\n".toList 7 1 :=
    @IsMeasure.intro ['\u2003'] ['+', '0', '0', '7'] [' ', 'K', 'i', 'B'] ['\n'] 7 1
      (by simp [isBlank])
      (.signed ⟨by simp, by simp, rfl, by simp⟩) (@IsUnit.suffix [' '] _ 1 (by simp [isBlank]) kibi)
      (by simp [isBlank])
  have sixteen : IsMeasure "16EiB".toList 16 6 :=
    @IsMeasure.intro [] ['1', '6'] ['E', 'i', 'B'] [] 16 6 nofun
      (.plain ⟨by simp, by simp, rfl, by simp⟩) (@IsUnit.suffix [] _ 6 nofun exbi) nofun
  have no_count : ∀ n, ¬ IsSize "KiB".toList n := by
    intro n size
    have read := read?_eq_some_iff.2 size
    rw [show read? "KiB".toList = none by decide] at read
    cases read
  have cut : CutsCharacter (lowerAscii (trimBlanks "1\u2713".toList)) :=
    cutsCharacter_iff.2 ⟨2, by decide, by decide⟩
  exact ⟨((sizes_read_by_grammar _).1 7168).2 ⟨7, 1, seven, by decide, rfl⟩,
    (sizes_read_by_grammar _).2.1 no_count,
    (sizes_read_by_grammar _).2.2.1 cut,
    (sizes_read_by_grammar _).2.2.2.1 16 6 sixteen (by decide),
    (sizes_read_by_grammar "5KiB").2.2.2.2 ['5'] _ _ 1 kibi kilo rfl 5120⟩

end Ferry.ByteSize
