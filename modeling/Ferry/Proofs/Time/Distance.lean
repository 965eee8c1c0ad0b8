import Ferry.Files.Times

/-!
Clock readings of the operating system as instants. A reading is a second of either sign and a part
of it that counts forwards; how far it is from 1970 is computed first, and counts backwards before
it. `Distance.Measures` says what that distance is, and `Distance.instant?_of` that the conversion
leads back to the second and the part that were read, so that what it does to readings is a matter
of `Instant.of?` alone.

The conversion is done in machine words. What an operation on words comes to is only taken where it
is the number that it stands for, and the outer `none` is left to what goes past a word: there is
none on any distance (`WordDistance.instant?_eq`).
-/
namespace Ferry.Time

variable {secs : Int} {nanos : Nat}

/-! ### What is read and what comes of it -/

/-- There are no instants further off than a signed 64-bit word can count. -/
theorem Instant.of?_eq_none (far : Int64.maxValue.toInt < secs.natAbs) :
    Instant.of? secs nanos = none := by
  have most : Int64.maxValue.toInt = 9223372036854775807 := rfl
  unfold Instant.of? firstSecond lastSecond
  rw [if_neg]
  omega

/-- A second and a part of it are an instant where the second is in the calendar range. -/
theorem Instant.of?_of_part (part : nanos < billion) : Instant.of? secs nanos =
    if firstSecond ≤ secs ∧ secs ≤ lastSecond then some ⟨secs, nanos⟩ else none := by
  have no_leap : nanos < 2 * billion := by omega
  simp [Instant.of?, part, no_leap]

/-- The distance of a second and a part of it leads back to them, also before 1970. -/
theorem Distance.instant?_of (part : nanos < billion) :
    (Distance.of secs nanos).instant? = Instant.of? secs nanos := by
  by_cases after : 0 ≤ secs
  · simp only [Distance.of, if_pos after, Distance.instant?, Int.toNat_of_nonneg after]
    split
    · exact (Instant.of?_eq_none (by omega)).symm
    · rfl
  by_cases whole : nanos = 0
  · have back : ((-secs).toNat : Int) = -secs := Int.toNat_of_nonneg (by omega)
    simp only [Distance.of, if_neg after, if_pos whole, Distance.instant?, back, Int.neg_neg]
    split
    · exact (Instant.of?_eq_none (by omega)).symm
    · simp [whole]
  · -- the part counts backwards in a distance, from the second above
    have back : ((-secs - 1).toNat : Int) = -secs - 1 := Int.toNat_of_nonneg (by omega)
    have secs_eq : -(-secs - 1) - 1 = secs := by omega
    have nanos_eq : billion - (billion - nanos) = nanos := by omega
    have left : billion - nanos ≠ 0 := by omega
    simp only [Distance.of, if_neg after, if_neg whole, Distance.instant?, back, secs_eq, nanos_eq,
      if_neg left]
    split
    · exact (Instant.of?_eq_none (by omega)).symm
    · rfl

/-- The nanoseconds from the start of 1970 to a part of a second, below zero before it. -/
def ticks (secs : Int) (nanos : Nat) : Int := secs * billion + nanos

/-- A distance is how far `t` nanoseconds from the start of 1970 are: as long, on that side, and
with a part that is less than a second. -/
structure Distance.Measures (d : Distance) (t : Int) : Prop where
  part : d.nanos < billion
  length : d.secs * billion + d.nanos = t.natAbs
  side : d.before = true ↔ t < 0

theorem Distance.measures_of (secs : Int) (part : nanos < billion) :
    (Distance.of secs nanos).Measures (ticks secs nanos) := by
  have second : billion = 1000000000 := rfl
  rw [second] at part
  unfold Distance.of ticks
  rw [second]
  by_cases after : 0 ≤ secs
  · rw [if_pos after]
    exact ⟨part, by simp only [second]; omega, iff_of_false Bool.false_ne_true (by omega)⟩
  have below : secs * (1000000000 : Nat) + nanos < 0 := by omega
  by_cases whole : nanos = 0
  · rw [if_neg after, if_pos whole]
    exact ⟨Nat.zero_lt_succ _, by simp only [second]; omega, iff_of_true rfl below⟩
  · rw [if_neg after, if_neg whole]
    exact ⟨Nat.sub_lt (by omega) (by omega), by simp only [second]; omega, iff_of_true rfl below⟩

/-! ### In machine words -/

/-- A signed word, where it is the number that it is meant to be. -/
def checked (w : Int64) (n : Int) : Option Int64 := if w.toInt = n then some w else none

/-- The signed word that is the same number as an unsigned one. -/
def signed? (n : UInt64) : Option Int64 := checked (.ofInt n.toNat) n.toNat

/-- The negative of a word. -/
def negative? (a : Int64) : Option Int64 := checked (-a) (-a.toInt)

/-- The difference of two words. -/
def difference? (a b : Int64) : Option Int64 := checked (a - b) (a.toInt - b.toInt)

/-- The nanoseconds that are left of a second. -/
def partLeft? (nanos : UInt32) : Option UInt32 :=
  let left := 1000000000 - nanos
  if (left.toNat : Int) = 1000000000 - nanos.toNat then some left else none

/-- A distance in words. -/
structure WordDistance where
  before : Bool
  secs : UInt64
  nanos : UInt32
deriving DecidableEq, Repr

namespace WordDistance

/-- The distance that words stand for. -/
def distance (d : WordDistance) : Distance := ⟨d.before, d.secs.toNat, d.nanos.toNat⟩

/-- The second and the part of it at a distance, if the seconds fit a signed word; nothing where the
computation goes past a word. -/
def reading? (d : WordDistance) : Option (Option (Int64 × UInt32)) :=
  match signed? d.secs with
  | none => some none
  | some secs =>
    if d.before then
      if d.nanos = 0 then do
        let negative ← negative? secs
        some (some (negative, 0))
      else do
        let negative ← negative? secs
        let below ← difference? negative 1
        let left ← partLeft? d.nanos
        some (some (below, left))
    else some (some (secs, d.nanos))

/-- The instant at a distance; nothing where the computation goes past a word. -/
def instant? (d : WordDistance) : Option (Option Instant) :=
  d.reading?.map fun reading => reading.bind fun (secs, nanos) =>
    Instant.of? secs.toInt nanos.toNat

end WordDistance

variable {a b : Int64}

theorem signed?_eq_some {n : UInt64} (fits : (n.toNat : Int) ≤ Int64.maxValue.toInt) :
    ∃ a, signed? n = some a ∧ a.toInt = n.toNat := by
  have most : Int64.maxValue.toInt = 9223372036854775807 := rfl
  have value : (Int64.ofInt n.toNat).toInt = n.toNat :=
    Int64.toInt_ofInt_of_le (by omega) (by omega)
  exact ⟨_, if_pos value, value⟩

theorem signed?_eq_none {n : UInt64} (large : Int64.maxValue.toInt < n.toNat) :
    signed? n = none := by
  refine if_neg fun value => ?_
  have le := Int64.toInt_le (.ofInt n.toNat)
  omega

/-- The negative of the least word is the only one that is no word. -/
theorem negative?_eq (above : Int64.minValue.toInt < a.toInt) :
    ∃ b, negative? a = some b ∧ b.toInt = -a.toInt := by
  have least : Int64.minValue.toInt = -9223372036854775808 := rfl
  have upper := a.toInt_lt
  have value : (-a).toInt = -a.toInt := by
    rw [Int64.toInt_neg]
    exact Int.bmod_eq_of_le (by omega) (by omega)
  exact ⟨-a, if_pos value, value⟩

theorem difference?_one_eq (above : Int64.minValue.toInt < a.toInt) :
    ∃ b, difference? a 1 = some b ∧ b.toInt = a.toInt - 1 := by
  have least : Int64.minValue.toInt = -9223372036854775808 := rfl
  have upper := a.toInt_lt
  have value : (a - 1).toInt = a.toInt - 1 := by
    rw [Int64.toInt_sub]
    exact Int.bmod_eq_of_le (by simp; omega) (by simp; omega)
  exact ⟨a - 1, if_pos value, value⟩

theorem partLeft?_eq {nanos : UInt32} (part : nanos.toNat ≤ billion) :
    ∃ left, partLeft? nanos = some left ∧ left.toNat = billion - nanos.toNat := by
  have value : ((1000000000 : UInt32) - nanos).toNat = billion - nanos.toNat :=
    UInt32.toNat_sub_of_le _ nanos part
  refine ⟨1000000000 - nanos, if_pos ?_, value⟩
  rw [value]
  exact Int.ofNat_sub part

namespace WordDistance

/-- In words the conversion is what it is in numbers, and goes past no word: seconds that fit a
signed word are at most its greatest one, so the negative is not the least one, and there is room
for one less. -/
theorem instant?_eq {d : WordDistance} (part : d.nanos.toNat ≤ billion) :
    d.instant? = some d.distance.instant? := by
  have least : Int64.minValue.toInt = -9223372036854775808 := rfl
  have most : Int64.maxValue.toInt = 9223372036854775807 := rfl
  have whole_iff : d.nanos.toNat = 0 ↔ d.nanos = 0 := UInt32.toNat_inj (b := 0)
  unfold instant? reading? Distance.instant? distance
  by_cases large : Int64.maxValue.toInt < d.secs.toNat
  · rw [signed?_eq_none large, if_pos large]
    rfl
  obtain ⟨secs, signed, secs_eq⟩ := signed?_eq_some (Int.not_lt.1 large)
  rw [signed, if_neg large]
  by_cases after : d.before = false
  · simp [after, secs_eq]
  obtain ⟨negative, negated, negative_eq⟩ := negative?_eq (a := secs) (by omega)
  by_cases whole : d.nanos = 0
  · simp [after, whole, negated, negative_eq, secs_eq]
  obtain ⟨below, lowered, below_eq⟩ := difference?_one_eq (a := negative) (by omega)
  obtain ⟨left, rest, left_eq⟩ := partLeft?_eq part
  simp [after, whole, whole_iff, negated, lowered, rest, below_eq, negative_eq, secs_eq, left_eq]

/-- The distance of any second that fits a word fits into words. -/
theorem exists_distance_eq (secs : Int64) (part : nanos < billion) :
    ∃ d : WordDistance, d.distance = Distance.of secs.toInt nanos := by
  have lower := secs.le_toInt
  have upper := secs.toInt_lt
  have second : billion = 1000000000 := rfl
  obtain ⟨part_lt, length, -⟩ := Distance.measures_of secs.toInt part
  rw [ticks, second] at length
  rw [second] at part part_lt
  generalize Distance.of secs.toInt nanos = d at part_lt length ⊢
  have secs_lt : d.secs < UInt64.size := by
    show d.secs < 18446744073709551616
    omega
  refine ⟨⟨d.before, .ofNat d.secs, .ofNat d.nanos⟩, ?_⟩
  rw [distance, UInt64.toNat_ofNat_of_lt' secs_lt,
    UInt32.toNat_ofNat_of_lt' (Nat.lt_trans part_lt (by decide))]

end WordDistance

/-! ### The order of instants -/

/-- The nanoseconds from the start of 1970 to an instant. -/
def Instant.ticks (t : Instant) : Int := Time.ticks t.secs t.nanos

/-- A second and a part of it are told by the nanoseconds that they come to. -/
theorem ticks_inj {secs' : Int} {nanos' : Nat} (part : nanos < billion) (part' : nanos' < billion) :
    ticks secs nanos = ticks secs' nanos' ↔ secs = secs' ∧ nanos = nanos' := by
  have second : billion = 1000000000 := rfl
  simp only [ticks, second] at *
  omega

end Ferry.Time

namespace Ferry.Files

open Ferry.Time

variable {secs : Int} {nanos : Nat}

theorem FileTime.instant?_eq (part : nanos < billion) :
    (⟨secs, nanos⟩ : FileTime).instant? = Instant.of? secs nanos :=
  Distance.instant?_of part

/-- The instant of a file's time is the one that was read. -/
theorem FileTime.eq_of_instant? {t : Instant} (part : nanos < billion)
    (converted : (⟨secs, nanos⟩ : FileTime).instant? = some t) : t = ⟨secs, nanos⟩ := by
  rw [FileTime.instant?_eq part, Instant.of?_of_part part] at converted
  split at converted
  · exact (Option.some.inj converted).symm
  · cases converted

/-- A time is no instant exactly if it is outside the calendar range. -/
theorem FileTime.instant?_eq_none_iff (part : nanos < billion) :
    (⟨secs, nanos⟩ : FileTime).instant? = none ↔
      ticks secs nanos < ticks firstSecond 0 ∨ ticks (lastSecond + 1) 0 ≤ ticks secs nanos := by
  have second : billion = 1000000000 := rfl
  rw [FileTime.instant?_eq part, Instant.of?_of_part part]
  simp only [ite_eq_right_iff, reduceCtorEq, imp_false, ticks, second] at part ⊢
  omega

/-- The time of a file is an instant of the calendar, or none if it is outside the calendar range,
however far it is from 1970 and on whichever side. The distance is the true one, the conversion goes
past no word on its way, and what it comes to is the second below and a part of it that counts
forwards. So times that are instants are told apart by these, and come in their order. -/
theorem file_times_are_instants {secs : Int64} {nanos : Nat} (part : nanos < billion) :
    (Distance.of secs.toInt nanos).Measures (ticks secs.toInt nanos) ∧
    (∃ d : WordDistance, d.distance = Distance.of secs.toInt nanos ∧
      d.instant? = some (FileTime.instant? ⟨secs.toInt, nanos⟩)) ∧
    FileTime.instant? ⟨secs.toInt, nanos⟩ = Instant.of? secs.toInt nanos ∧
    (FileTime.instant? ⟨secs.toInt, nanos⟩ = none ↔
      ticks secs.toInt nanos < ticks firstSecond 0 ∨
        ticks (lastSecond + 1) 0 ≤ ticks secs.toInt nanos) ∧
    (∀ t, FileTime.instant? ⟨secs.toInt, nanos⟩ = some t →
      t.ticks = ticks secs.toInt nanos ∧ t.nanos < billion) ∧
    ∀ (secs' : Int64) (nanos' : Nat), nanos' < billion → ∀ t t',
      FileTime.instant? ⟨secs.toInt, nanos⟩ = some t →
      FileTime.instant? ⟨secs'.toInt, nanos'⟩ = some t' →
      (t = t' ↔ ticks secs.toInt nanos = ticks secs'.toInt nanos') ∧
        (t.ticks < t'.ticks ↔ ticks secs.toInt nanos < ticks secs'.toInt nanos') := by
  refine ⟨Distance.measures_of _ part, ?_, FileTime.instant?_eq part,
    FileTime.instant?_eq_none_iff part, ?_, ?_⟩
  · obtain ⟨d, stands⟩ := WordDistance.exists_distance_eq secs part
    have part_le : d.nanos.toNat ≤ billion := by
      have within := (Distance.measures_of secs.toInt part).part
      rw [← stands] at within
      exact Nat.le_of_lt within
    refine ⟨d, stands, ?_⟩
    rw [WordDistance.instant?_eq part_le, stands]
    rfl
  · intro t converted
    rw [FileTime.eq_of_instant? part converted]
    exact ⟨rfl, part⟩
  · intro secs' nanos' part' t t' converted converted'
    rw [FileTime.eq_of_instant? part converted, FileTime.eq_of_instant? part' converted',
      ticks_inj part part']
    exact ⟨by simp, Iff.rfl⟩

/-- A second and a half before 1970, and the least second that a word can count with the smallest
part of it. -/
theorem times_before_epoch :
    500000000 < billion ∧
    FileTime.instant? ⟨-2, 500000000⟩ = some ⟨-2, 500000000⟩ ∧
    1 < billion ∧
    FileTime.instant? ⟨-9223372036854775808, 1⟩ = none ∧
    ∃ d : WordDistance, d.distance = ⟨true, 9223372036854775807, 999999999⟩ ∧
      d.instant? = some none := by
  have half : 500000000 < billion := by decide
  have least : 1 < billion := by decide
  refine ⟨half, ?_, least, ?_⟩
  · exact (@file_times_are_instants (-2) _ half).2.2.1.trans (by decide)
  · obtain ⟨-, ⟨d, stands, converted⟩, -, none_iff, -⟩ :=
      @file_times_are_instants Int64.minValue _ least
    have none := none_iff.2 (.inl (by decide))
    exact ⟨none, d, stands.trans (by decide), converted.trans (congrArg some none)⟩

end Ferry.Files
