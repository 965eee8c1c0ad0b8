import Ferry.Time.Stamp
import Ferry.Proofs.Text.Numeral
import Ferry.Proofs.Time.Calendar

/-!
What is read of a timestamp that has been written. Each field is read from the front of what
follows, and no field begins with a sign that the reader would pass over, so that all fields come
back; but the distance from universal time has been rounded to minutes. The instant is the one it
was written for exactly where there was nothing to round.
-/
namespace Ferry.Time

open Ferry.Text

variable {rest : List Char}

/-! ### Fields -/

theorem isBlank_of_isDigit {c : Char} (digit : isDigit c = true) : isBlank c = false := by
  obtain ⟨lower, upper⟩ := bounds_of_isDigit digit
  simp [isBlank]
  omega

theorem skipBlanks_cons {c : Char} {cs : List Char} (no_blank : isBlank c = false) :
    skipBlanks (c :: cs) = c :: cs :=
  List.dropWhile_cons_of_neg (by simp [no_blank])

theorem skipBlanks_padded (width n : Nat) (rest : List Char) :
    skipBlanks (padded width n ++ rest) = padded width n ++ rest := by
  obtain ⟨c, cs, eq, digit⟩ := padded_eq_cons width n
  rw [eq, List.cons_append, skipBlanks_cons (isBlank_of_isDigit digit)]

/-- A number of some width is read as a whole, if it is as wide as can be or nothing of a number
follows. -/
theorem scanNumber_padded {least most width n : Nat} (lt : n < 10 ^ width) (pos : 0 < width)
    (least_le : least ≤ width) (le_most : width ≤ most)
    (ends : width < most → ∀ c ∈ rest.head?, isDigit c = false) :
    scanNumber least most (padded width n ++ rest) = some (n, rest) := by
  have length := length_padded pos lt
  have digits : ∀ c ∈ padded width n, isDigit c = true := fun c => isDigit_of_mem_padded
  have taken : ((padded width n ++ rest).take most).takeWhile (fun c => (digit? c).isSome) =
      padded width n := by
    rw [List.take_append, length, List.take_of_length_le (by omega)]
    refine (span_digits digits fun c mem => ?_).1
    rw [List.head?_take] at mem
    split at mem
    · cases mem
    · exact ends (by omega) c mem
  have nonempty : ¬ ((padded width n).isEmpty = true ∨ (padded width n).length < least) := by
    rw [length, List.isEmpty_iff_length_eq_zero]
    omega
  simp only [scanNumber, taken, if_neg nonempty, readDigits_padded, List.drop_left]
  rfl

theorem scanField_padded {low high n : Nat} (lower : low ≤ n) (upper : n ≤ high) (lt : n < 100)
    (rest : List Char) :
    scanField 1 2 low high (skipBlanks (padded 2 n ++ rest)) = some (n, rest) := by
  have number : scanNumber 1 2 (padded 2 n ++ rest) = some (n, rest) :=
    scanNumber_padded lt (by decide) (by decide) (Nat.le_refl 2) fun less => absurd less (by decide)
  rw [skipBlanks_padded, scanField, number]
  exact if_pos ⟨lower, upper⟩

/-- A number of any length is read as a whole, if nothing of a number follows. -/
theorem scanNumber_whole (width n : Nat) (ends : ∀ c ∈ rest.head?, isDigit c = false) :
    scanNumber 1 (padded width n ++ rest).length (padded width n ++ rest) = some (n, rest) := by
  have digits : ∀ c ∈ padded width n, isDigit c = true := fun c => isDigit_of_mem_padded
  have taken : ((padded width n ++ rest).take (padded width n ++ rest).length).takeWhile
      (fun c => (digit? c).isSome) = padded width n := by
    rw [List.take_length]
    exact (span_digits digits ends).1
  obtain ⟨c, cs, eq, -⟩ := padded_eq_cons width n
  have nonempty : ¬ ((padded width n).isEmpty = true ∨ (padded width n).length < 1) := by
    simp [eq]
  simp only [scanNumber, taken, if_neg nonempty, readDigits_padded, List.drop_left]
  rfl

theorem scanYear_written {year : Int} (ends : ∀ c ∈ rest.head?, isDigit c = false) :
    scanYear (yearChars year ++ rest) = some (year, rest) := by
  unfold yearChars
  split
  · rename_i bounds
    have number : scanNumber 1 4 (padded 4 year.toNat ++ rest) = some (year.toNat, rest) :=
      scanNumber_padded (by omega) (by decide) (by decide) (Nat.le_refl 4)
        fun less => absurd less (by decide)
    obtain ⟨c, cs, eq, digit⟩ := padded_eq_cons 4 year.toNat
    rw [scanYear, skipBlanks_padded]
    rw [eq, List.cons_append] at number ⊢
    -- a year that begins with a digit has no sign
    split
    · rename_i minus
      injection minus with minus
      rw [minus] at digit
      cases digit
    · rename_i plus
      injection plus with plus
      rw [plus] at digit
      cases digit
    · rw [number]
      show some ((year.toNat : Int), rest) = _
      rw [Int.toNat_of_nonneg bounds.1]
  · rename_i outside
    have number := scanNumber_whole 4 year.natAbs ends
    by_cases negative : year < 0
    · rw [if_pos negative, List.cons_append, scanYear, skipBlanks_cons rfl]
      show (scanNumber 1 _ _).map _ = _
      rw [number]
      show some (-(year.natAbs : Int), rest) = _
      congr 2
      omega
    · rw [if_neg negative, List.cons_append, scanYear, skipBlanks_cons rfl]
      show (scanNumber 1 _ _).map _ = _
      rw [number]
      show some ((year.natAbs : Int), rest) = _
      congr 2
      omega

theorem scanFraction_padded {places n : Nat} (pos : 0 < places) (le : places ≤ 9)
    (lt : n < 10 ^ places) (ends : ∀ c ∈ rest.head?, isDigit c = false) :
    scanFraction ('.' :: (padded places n ++ rest)) = some (n * 10 ^ (9 - places), rest) := by
  have number : scanNumber 1 9 (padded places n ++ rest) = some (n, rest) :=
    scanNumber_padded lt pos pos le fun _ => ends
  have length : (padded places n ++ rest).length - rest.length = places := by
    rw [List.length_append, length_padded pos lt, Nat.add_sub_cancel]
  have nothing_left : rest.dropWhile isDigit = rest := (@span_digits [] rest nofun ends).2
  rw [scanFraction, number]
  show some (n * 10 ^ (9 - ((padded places n ++ rest).length - rest.length)),
    rest.dropWhile isDigit) = _
  rw [length, nothing_left]

theorem scanFraction_written {nanos : Nat} (lt : nanos < billion)
    (ends : ∀ c ∈ rest.head?, isDigit c = false ∧ c ≠ '.') :
    scanFraction (fractionChars nanos ++ rest) = some (nanos, rest) := by
  have no_digit : ∀ c ∈ rest.head?, isDigit c = false := fun c mem => (ends c mem).1
  have billion_eq : billion = 1000000000 := rfl
  unfold fractionChars
  split
  · rename_i whole
    rw [List.nil_append, whole]
    unfold scanFraction
    split
    · exact absurd rfl (ends '.' rfl).2
    · rfl
  split
  · rw [List.cons_append, scanFraction_padded (by decide) (by decide) (by omega) no_digit]
    congr 2
    omega
  split
  · rw [List.cons_append, scanFraction_padded (by decide) (by decide) (by omega) no_digit]
    congr 2
    omega
  · rw [List.cons_append, scanFraction_padded (by decide) (by decide) (by omega) no_digit,
      Nat.sub_self, Nat.pow_zero, Nat.mul_one]

/-! ### The distance from universal time -/

/-- Hours or minutes of a distance. Hours beyond the last one of a day are refused. -/
theorem scanField_two {high n : Nat} (lt : n < 100) :
    scanField 2 2 0 high (padded 2 n ++ rest) = if n ≤ high then some (n, rest) else none := by
  have number : scanNumber 2 2 (padded 2 n ++ rest) = some (n, rest) :=
    scanNumber_padded lt (by decide) (Nat.le_refl 2) (Nat.le_refl 2) fun less =>
      absurd less (by decide)
  rw [scanField, number]
  show (if 0 ≤ n ∧ n ≤ high then _ else _) = _
  simp only [Nat.zero_le, true_and]

/-- A distance that has been rounded to minutes, with its sign. -/
def toMinutes (ahead : Int) : Int :=
  if ahead < 0 then -(nearestMinutes ahead : Int) else nearestMinutes ahead

/-- Nothing has been rounded if the distance was one of whole minutes. -/
theorem toMinutes_eq_iff {ahead : Int} : 60 * toMinutes ahead = ahead ↔ 60 ∣ ahead := by
  unfold toMinutes nearestMinutes
  split <;> omega

theorem nearestMinutes_le {ahead : Int} (lt_day : ahead.natAbs < 86400) :
    nearestMinutes ahead ≤ 1440 := by
  unfold nearestMinutes
  omega

/-- The hours and minutes of a distance, whichever its sign. -/
theorem scanHours_distance {minutes : Nat} (le : minutes ≤ 1440) (sign : Int) :
    (do
      let (hours, cs) ← scanField 2 2 0 23 (padded 2 (minutes / 60) ++
        (':' :: padded 2 (minutes % 60)))
      let cs ← skipColons cs
      let (minutes, cs) ← scanField 2 2 0 59 cs
      some (sign * (60 * hours + minutes : Nat), cs)) =
      if minutes < 1440 then some (sign * minutes, []) else none := by
  obtain ⟨c, cs, eq, digit⟩ := padded_eq_cons 2 (minutes % 60)
  have no_colon : skipColons (':' :: padded 2 (minutes % 60)) = some (padded 2 (minutes % 60)) := by
    have other : c ≠ ':' := by
      rintro rfl
      cases digit
    have stays : ¬ (c = ':' || isBlank c) = true := by simp [other, isBlank_of_isDigit digit]
    rw [eq, skipColons, List.dropWhile_cons_of_pos rfl]
    exact congrArg some (List.dropWhile_cons_of_neg stays)
  have last : scanField 2 2 0 59 (padded 2 (minutes % 60)) = some (minutes % 60, []) := by
    rw [← List.append_nil (padded 2 _), scanField_two (by omega), if_pos (by omega)]
  rw [scanField_two (by omega)]
  split
  · rename_i hours
    show (do
      let cs ← skipColons (':' :: padded 2 (minutes % 60))
      let (later, cs) ← scanField 2 2 0 59 cs
      some (sign * (60 * (minutes / 60) + later : Nat), cs)) = _
    rw [no_colon]
    show (do
      let (later, cs) ← scanField 2 2 0 59 (padded 2 (minutes % 60))
      some (sign * (60 * (minutes / 60) + later : Nat), cs)) = _
    rw [last]
    show some (sign * ((60 * (minutes / 60) + minutes % 60 : Nat) : Int), []) = _
    rw [Nat.div_add_mod, if_pos (by omega)]
  · rw [if_neg (by omega)]
    rfl

/-- The end of a timestamp is read as the distance it was rounded to, unless that is a whole day. -/
theorem scanLooseZone_chars (mark : ZoneMark) {ahead : Int} (lt_day : ahead.natAbs < 86400) :
    scanLooseZone (skipBlanks (mark.chars ahead)) =
      if nearestMinutes ahead < 1440 then some (toMinutes ahead, []) else none := by
  unfold ZoneMark.chars
  split
  · rename_i universal
    rw [universal.2]
    rfl
  · unfold distanceChars toMinutes
    split
    · have hours := scanHours_distance (nearestMinutes_le lt_day) (-1)
      rw [Int.neg_one_mul] at hours
      exact hours
    · have hours := scanHours_distance (nearestMinutes_le lt_day) 1
      rw [Int.one_mul] at hours
      exact hours

/-! ### Timestamps -/

/-- The date and the time of day of a timestamp, before `tail`. -/
def Fields.chars (f : Fields) (tail : List Char) : List Char :=
  yearChars f.date.year ++ '-' :: padded 2 f.date.month ++ '-' :: padded 2 f.date.day ++
    'T' :: padded 2 f.hour ++ ':' :: padded 2 f.minute ++ ':' :: padded 2 f.second ++
    fractionChars f.nanos ++ tail

theorem Fields.chars_eq (f : Fields) (tail : List Char) :
    f.chars tail = yearChars f.date.year ++ ('-' :: (padded 2 f.date.month ++ ('-' ::
      (padded 2 f.date.day ++ ('T' :: (padded 2 f.hour ++ (':' :: (padded 2 f.minute ++ (':' ::
        (padded 2 f.second ++ (fractionChars f.nanos ++ tail))))))))))) := by
  simp only [chars, List.append_assoc, List.cons_append]

/-- A first step that gives something, and what comes of it. -/
theorem bind_eq_of_eq_some {α β : Type} {x : Option α} {a : α} {f : α → Option β} {y : Option β}
    (first : x = some a) (later : f a = y) : (x >>= f) = y := by
  rw [first]
  exact later

/-- Fields in their ranges come back, with the distance that the end tells. -/
theorem scanLooseFields_chars {f : Fields} {tail : List Char} (valid : f.date.isValid = true)
    (hour : f.hour ≤ 23) (minute : f.minute ≤ 59) (second : f.second ≤ 60)
    (nanos : f.nanos < billion) (ends : ∀ c ∈ tail.head?, isDigit c = false ∧ c ≠ '.') :
    scanLooseFields (f.chars tail) = (do
      let (ahead, cs) ← scanLooseZone (skipBlanks tail)
      if (skipBlanks cs).isEmpty then some { f with ahead } else none) := by
  obtain ⟨⟨month_pos, month_le⟩, day_pos, day_le⟩ := Date.bounds_of_isValid valid
  have hyphen : ∀ c ∈ ('-' :: (padded 2 f.date.month ++ ('-' :: (padded 2 f.date.day ++ ('T' ::
      (padded 2 f.hour ++ (':' :: (padded 2 f.minute ++ (':' :: (padded 2 f.second ++
        (fractionChars f.nanos ++ tail))))))))))).head?, isDigit c = false := by
    rintro c ⟨⟩
    rfl
  rw [f.chars_eq]
  -- field by field, and between them the signs, none of which is a blank
  refine bind_eq_of_eq_some (scanYear_written hyphen) ?_
  refine bind_eq_of_eq_some (a := _) rfl ?_
  refine bind_eq_of_eq_some (scanField_padded month_pos month_le (by omega) _) ?_
  refine bind_eq_of_eq_some (a := _) rfl ?_
  refine bind_eq_of_eq_some (scanField_padded day_pos day_le (by omega) _) ?_
  refine bind_eq_of_eq_some (a := _) rfl ?_
  refine bind_eq_of_eq_some (scanField_padded (Nat.zero_le _) hour (by omega) _) ?_
  refine bind_eq_of_eq_some (a := _) rfl ?_
  refine bind_eq_of_eq_some (scanField_padded (Nat.zero_le _) minute (by omega) _) ?_
  refine bind_eq_of_eq_some (a := _) rfl ?_
  refine bind_eq_of_eq_some (scanField_padded (Nat.zero_le _) second (by omega) _) ?_
  exact bind_eq_of_eq_some (scanFraction_written nanos ends) rfl

/-- Whether an instant can stand in a timestamp with a year of four digits: the sixtieth second is
one of a minute that has it. -/
structure Instant.IsStamped (t : Instant) : Prop where
  year : 0 ≤ (Date.ofDay (t.secs / 86400)).year ∧ (Date.ofDay (t.secs / 86400)).year ≤ 9999
  inRange : Instant.of? t.secs t.nanos = some t

/-- Whether a timestamp can tell how far a zone's clocks are ahead at an instant: it has hours and
minutes for it, and no seconds. -/
def Zone.Tells (zone : Zone) (t : Instant) : Prop := 60 ∣ zone.ahead t.secs

instance (zone : Zone) (t : Instant) : Decidable (zone.Tells t) :=
  inferInstanceAs (Decidable (60 ∣ zone.ahead t.secs))

/-- The fields of an instant by the clocks of a zone. -/
def Instant.fields (zone : Zone) (t : Instant) : Fields :=
  let clock := ((t.secs + zone.ahead t.secs) % 86400).toNat
  ⟨Date.ofDay ((t.secs + zone.ahead t.secs) / 86400), clock / 3600, clock / 60 % 60,
    clock % 60 + t.nanos / billion, t.nanos % billion, toMinutes (zone.ahead t.secs)⟩

theorem Instant.chars_eq (zone : Zone) (mark : ZoneMark) (t : Instant) :
    t.chars zone mark = (t.fields zone).chars (mark.chars (zone.ahead t.secs)) := rfl

theorem head?_zoneMark (mark : ZoneMark) (ahead : Int) :
    ∀ c ∈ (mark.chars ahead).head?, isDigit c = false ∧ c ≠ '.' := by
  intro c
  unfold ZoneMark.chars distanceChars
  split
  · rintro ⟨⟩
    decide
  · split
    · rintro ⟨⟩
      decide
    · rintro ⟨⟩
      decide

theorem Instant.leap_of_of? {secs : Int} {nanos : Nat} {t : Instant}
    (inRange : Instant.of? secs nanos = some t) :
    nanos < 2 * billion ∧ (nanos < billion ∨ secs % 60 = 59) := by
  unfold Instant.of? at inRange
  split at inRange
  · rename_i conditions
    exact conditions.2.2
  · cases inRange

theorem Instant.eq_of_of? {secs : Int} {nanos : Nat} {t : Instant}
    (inRange : Instant.of? secs nanos = some t) : t = ⟨secs, nanos⟩ := by
  unfold Instant.of? at inRange
  split at inRange
  · exact (Option.some.inj inRange).symm
  · cases inRange

/-- The year of a day is about that of its cycle. -/
theorem Date.year_bounds {day : Int} (next : Int) (near : day - 1 ≤ next ∧ next ≤ day + 1)
    (short : 0 ≤ (Date.ofDay day).year ∧ (Date.ofDay day).year ≤ 9999) :
    -400 ≤ (Date.ofDay next).year ∧ (Date.ofDay next).year ≤ 10399 := by
  have year (day : Int) : (Date.ofDay day).year = 400 * ((day + daysToEpoch) / cycleDays) +
      yearOfCycle ((day + daysToEpoch) % cycleDays).toNat := rfl
  have within (day : Int) : yearOfCycle ((day + daysToEpoch) % cycleDays).toNat < 400 :=
    (yearOfCycle_spec (by unfold cycleDays; omega)).1
  have here := within day
  have there := within next
  rw [year] at short ⊢
  unfold daysToEpoch cycleDays at *
  omega

/-- What the fields of an instant denote: its seconds and what the rounding took off or added, and
a leap second only where the clocks show the last second of a minute. -/
theorem Instant.instant?_fields (zone : Zone) {t : Instant}
    (short : 0 ≤ (Date.ofDay (t.secs / 86400)).year ∧ (Date.ofDay (t.secs / 86400)).year ≤ 9999) :
    let ahead := zone.ahead t.secs
    let leap := (((t.secs + ahead) % 60).toNat + t.nanos / billion) / 60
    (t.fields zone).instant? = Instant.of?
      (t.secs + (ahead - 60 * toMinutes ahead) + (t.nanos / billion - leap : Nat))
      (t.nanos % billion + billion * leap) := by
  have lt_day := zone.lt_day t.secs
  obtain ⟨valid, day⟩ := Date.ofDay_spec ((t.secs + zone.ahead t.secs) / 86400)
  have year := Date.year_bounds ((t.secs + zone.ahead t.secs) / 86400) (by omega) short
  have second : ((t.secs + zone.ahead t.secs) % 86400).toNat % 60 =
      ((t.secs + zone.ahead t.secs) % 60).toNat := by omega
  simp only [Fields.instant?, fields, day, second]
  rw [if_pos ⟨valid, by omega, by omega⟩]
  congr 1
  generalize t.nanos / billion = leap
  omega

/-- The fields of an instant denote it exactly where its timestamp can tell the zone's clocks. -/
theorem Instant.instant?_fields_iff {zone : Zone} {t : Instant} (stamped : t.IsStamped) :
    (t.fields zone).instant? = some t ↔ zone.Tells t := by
  obtain ⟨short, inRange⟩ := stamped
  obtain ⟨lt, leap⟩ := leap_of_of? inRange
  rw [instant?_fields zone short, Zone.Tells, ← toMinutes_eq_iff]
  constructor
  · intro denotes
    have same := eq_of_of? denotes
    have secs := congrArg Instant.secs same
    have nanos := congrArg Instant.nanos same
    simp only at secs nanos
    unfold billion at *
    omega
  · intro whole
    have wall : (t.secs + zone.ahead t.secs) % 60 = t.secs % 60 := by omega
    have kept : ((t.secs % 60).toNat + t.nanos / billion) / 60 = t.nanos / billion := by
      unfold billion at *
      omega
    rw [whole, wall, kept, Nat.sub_self, Int.sub_self, Nat.mod_add_div]
    simpa using inRange

/-- An instant comes back from its timestamp exactly where that can tell how far the clocks are
ahead. -/
theorem Instant.readLoose?_text_iff {zone : Zone} {t : Instant} (stamped : t.IsStamped)
    (mark : ZoneMark) : Instant.readLoose? (t.text zone mark) = some t ↔ zone.Tells t := by
  obtain ⟨lt, -⟩ := leap_of_of? stamped.inRange
  have lt_day := zone.lt_day t.secs
  obtain ⟨valid, -⟩ := Date.ofDay_spec ((t.secs + zone.ahead t.secs) / 86400)
  have leap : t.nanos / billion ≤ 1 := by
    unfold billion at *
    omega
  have scanned := scanLooseFields_chars (f := t.fields zone) valid (by simp only [fields]; omega)
    (by simp only [fields]; omega) (by simp only [fields]; omega) (Nat.mod_lt _ (by decide))
    (head?_zoneMark mark (zone.ahead t.secs))
  rw [readLoose?, text, String.toList_ofList, chars_eq, scanned, scanLooseZone_chars mark lt_day]
  split
  · exact instant?_fields_iff stamped
  · -- a whole day is more than can be read, and more than the clocks are ahead
    rename_i whole_day
    refine iff_of_false nofun fun tells => whole_day ?_
    unfold Zone.Tells at tells
    unfold nearestMinutes
    omega

example : (⟨1483228799, 1500000000⟩ : Instant).text ⟨fun _ => 19800, fun _ => by decide⟩ .letter =
    "2017-01-01T05:29:60.500+05:30" := by decide

/-- The clocks are two seconds more behind than is told. -/
example : (⟨-5364662400, 0⟩ : Instant).text ⟨fun _ => -17762, fun _ => by decide⟩ .letter =
    "1799-12-31T19:03:58-04:56" := by decide

end Ferry.Time
