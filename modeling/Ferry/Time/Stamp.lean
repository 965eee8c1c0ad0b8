import Ferry.Time.Instant
import Ferry.Text.Blank
import Ferry.Text.Numeral

/-!
Timestamps in the form of RFC 3339: date, time of day and distance from universal time. They are
written in local time with the fewest of 0, 3, 6 or 9 places, and with the distance in hours and
minutes, which is all that the form has room for. There are two readers: a strict one, and one that
also takes short numbers, signed years, space between the fields and a distance without its colon.
-/
namespace Ferry.Time

open Ferry.Text

/-- Local time: by how many seconds its clocks are ahead of universal time, at each second of
universal time. They are less than a day ahead or behind. -/
structure Zone where
  ahead : Int → Int
  lt_day : ∀ secs, (ahead secs).natAbs < 86400

/-- The zone whose clocks show universal time. -/
def Zone.universal : Zone := ⟨fun _ => 0, fun _ => by decide⟩

/-- The minutes nearest to a distance of some seconds, a half counting away from zero. -/
def nearestMinutes (ahead : Int) : Nat := (ahead.natAbs + 30) / 60

/-- The distance from universal time in hours and minutes. -/
def distanceChars (ahead : Int) : List Char :=
  (if ahead < 0 then '-' else '+') :: padded 2 (nearestMinutes ahead / 60) ++
    ':' :: padded 2 (nearestMinutes ahead % 60)

/-- How a timestamp ends where the clocks show universal time. -/
inductive ZoneMark
  | letter
  | distance
deriving DecidableEq, Repr

/-- The end of a timestamp whose clocks are so many seconds ahead. -/
def ZoneMark.chars (mark : ZoneMark) (ahead : Int) : List Char :=
  if mark = .letter ∧ ahead = 0 then ['Z'] else distanceChars ahead

/-- A year in four digits, one outside 0 to 9999 with its sign. -/
def yearChars (year : Int) : List Char :=
  if 0 ≤ year ∧ year ≤ 9999 then padded 4 year.toNat
  else (if year < 0 then '-' else '+') :: padded 4 year.natAbs

/-- The fraction of a second: nothing, or a point and 3, 6 or 9 digits. -/
def fractionChars (nanos : Nat) : List Char :=
  if nanos = 0 then []
  else if nanos % 1000000 = 0 then '.' :: padded 3 (nanos / 1000000)
  else if nanos % 1000 = 0 then '.' :: padded 6 (nanos / 1000)
  else '.' :: padded 9 nanos

/-- An instant by the clocks of a zone. The leap second is one more than the second before it. -/
def Instant.chars (zone : Zone) (mark : ZoneMark) (t : Instant) : List Char :=
  let ahead := zone.ahead t.secs
  let date := Date.ofDay ((t.secs + ahead) / 86400)
  let clock := ((t.secs + ahead) % 86400).toNat
  let leap := t.nanos / billion
  yearChars date.year ++ '-' :: padded 2 date.month ++ '-' :: padded 2 date.day ++
    'T' :: padded 2 (clock / 3600) ++ ':' :: padded 2 (clock / 60 % 60) ++
    ':' :: padded 2 (clock % 60 + leap) ++ fractionChars (t.nanos % billion) ++
    mark.chars ahead

/-- An instant by the clocks of a zone, as a string. -/
def Instant.text (zone : Zone) (mark : ZoneMark) (t : Instant) : String :=
  String.ofList (t.chars zone mark)

/-- Reads something from the front of a text. -/
abbrev Scan (α : Type) := List Char → Option (α × List Char)

/-- A number of at least one and at most `most` digits. -/
def scanNumber (least most : Nat) : Scan Nat := fun cs =>
  let digits := (cs.take most).takeWhile fun c => (digit? c).isSome
  if digits.isEmpty ∨ digits.length < least then none
  else (readDigits 0 digits).map fun n => (n, cs.drop digits.length)

/-- A number between two bounds. -/
def scanField (least most low high : Nat) : Scan Nat := fun cs => do
  let (n, cs) ← scanNumber least most cs
  if low ≤ n ∧ n ≤ high then some (n, cs) else none

/-- A given character. -/
def scanChar (c : Char) : List Char → Option (List Char)
  | [] => none
  | x :: cs => if x = c then some cs else none

/-- The sign between date and time of day. -/
def scanDivider : List Char → Option (List Char)
  | 't' :: cs => some cs
  | 'T' :: cs => some cs
  | ' ' :: cs => some cs
  | _ => none

/-- The nanoseconds after a point, if there is one: the first nine digits count. -/
def scanFraction : Scan Nat
  | '.' :: cs => do
    let (n, rest) ← scanNumber 1 9 cs
    let places := cs.length - rest.length
    some (n * Nat.pow 10 (9 - places), rest.dropWhile fun c => (digit? c).isSome)
  | cs => some (0, cs)

/-- The minutes of a distance from universal time, two digits for the hours and two for the
minutes, with `colon` reading what stands between them. -/
def scanDistance (colon : List Char → Option (List Char)) : Scan Int := fun cs => do
  let (sign, cs) ← match cs with
    | '+' :: cs => some ((1 : Int), cs)
    | '-' :: cs => some (-1, cs)
    | '−' :: cs => some (-1, cs)
    | _ => none
  let (hours, cs) ← scanField 2 2 0 23 cs
  let cs ← colon cs
  let (minutes, cs) ← scanField 2 2 0 59 cs
  some (sign * (60 * hours + minutes : Nat), cs)

/-- The distance from universal time, or the letter for none. -/
def scanZone (colon : List Char → Option (List Char)) : Scan Int
  | 'Z' :: cs => some (0, cs)
  | 'z' :: cs => some (0, cs)
  | cs => scanDistance colon cs

/-- The fields of a timestamp. -/
structure Fields where
  date : Date
  hour : Nat
  minute : Nat
  second : Nat
  nanos : Nat
  /-- Minutes by which local time is ahead of universal time. -/
  ahead : Int
deriving DecidableEq, Repr

/-- The instant that the fields denote. Second 60 is the leap second after second 59. -/
def Fields.instant? (f : Fields) : Option Instant :=
  if f.date.isValid ∧ -262143 ≤ f.date.year ∧ f.date.year ≤ 262142 then
    let leap := f.second / 60
    let clock := 3600 * f.hour + 60 * f.minute + (f.second - leap)
    Instant.of? (86400 * f.date.toDay + clock - 60 * f.ahead) (f.nanos + billion * leap)
  else none

/-- The fields of a timestamp in the strict form. -/
def scanFields (cs : List Char) : Option Fields := do
  let (year, cs) ← scanNumber 4 4 cs
  let cs ← scanChar '-' cs
  let (month, cs) ← scanField 2 2 1 12 cs
  let cs ← scanChar '-' cs
  let (day, cs) ← scanField 2 2 1 31 cs
  let cs ← scanDivider cs
  let (hour, cs) ← scanField 2 2 0 23 cs
  let cs ← scanChar ':' cs
  let (minute, cs) ← scanField 2 2 0 59 cs
  let cs ← scanChar ':' cs
  let (second, cs) ← scanField 2 2 0 60 cs
  let (nanos, cs) ← scanFraction cs
  let (ahead, cs) ← scanZone (scanChar ':') cs
  if cs.isEmpty then some ⟨⟨year, month, day⟩, hour, minute, second, nanos, ahead⟩ else none

/-- Drops the blanks at the front. -/
def skipBlanks (cs : List Char) : List Char := cs.dropWhile isBlank

/-- A year in up to four digits, or in any number of them after a sign. -/
def scanYear (cs : List Char) : Option (Int × List Char) :=
  match skipBlanks cs with
  | '-' :: cs => (scanNumber 1 cs.length cs).map fun (n, cs) => (-(n : Int), cs)
  | '+' :: cs => (scanNumber 1 cs.length cs).map fun (n, cs) => ((n : Int), cs)
  | cs => (scanNumber 1 4 cs).map fun (n, cs) => ((n : Int), cs)

/-- What may stand between the hours and minutes of a distance in the loose form. -/
def skipColons (cs : List Char) : Option (List Char) :=
  some (cs.dropWhile fun c => c = ':' || isBlank c)

/-- The distance from universal time in the loose form, where it may be called UTC. -/
def scanLooseZone (cs : List Char) : Option (Int × List Char) :=
  if lowerAscii (cs.take 3) = "utc".toList then some (0, cs.drop 3) else scanZone skipColons cs

/-- The fields of a timestamp in the loose form. -/
def scanLooseFields (cs : List Char) : Option Fields := do
  let (year, cs) ← scanYear cs
  let cs ← scanChar '-' (skipBlanks cs)
  let (month, cs) ← scanField 1 2 1 12 (skipBlanks cs)
  let cs ← scanChar '-' (skipBlanks cs)
  let (day, cs) ← scanField 1 2 1 31 (skipBlanks cs)
  let cs ← scanDivider cs
  let (hour, cs) ← scanField 1 2 0 23 (skipBlanks cs)
  let cs ← scanChar ':' (skipBlanks cs)
  let (minute, cs) ← scanField 1 2 0 59 (skipBlanks cs)
  let cs ← scanChar ':' (skipBlanks cs)
  let (second, cs) ← scanField 1 2 0 60 (skipBlanks cs)
  let (nanos, cs) ← scanFraction cs
  let (ahead, cs) ← scanLooseZone (skipBlanks cs)
  if (skipBlanks cs).isEmpty then
    some ⟨⟨year, month, day⟩, hour, minute, second, nanos, ahead⟩
  else none

/-- The instant of a timestamp in the strict form. -/
def Instant.read? (s : String) : Option Instant := (scanFields s.toList).bind Fields.instant?

/-- The instant of a timestamp in the loose form. -/
def Instant.readLoose? (s : String) : Option Instant :=
  (scanLooseFields s.toList).bind Fields.instant?

end Ferry.Time
