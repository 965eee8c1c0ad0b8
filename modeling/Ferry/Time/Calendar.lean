/-!
The Gregorian calendar without beginning or end: days counted from 1 January 1970 and dates, turned
into each other through the 400-year cycle in which the calendar repeats.
-/
namespace Ferry.Time

/-- Whether a year has a 29 February. -/
def isLeap (year : Int) : Bool := year % 4 = 0 && (year % 100 ≠ 0 || year % 400 = 0)

/-- The lengths of the twelve months. -/
def monthLengths (leap : Bool) : List Nat :=
  [31, if leap then 29 else 28, 31, 30, 31, 30, 31, 31, 30, 31, 30, 31]

/-- The days of the first `n` years of a cycle, whose first year is a leap year. -/
def daysOfYears (n : Nat) : Nat := 365 * n + (n + 3) / 4 - (n + 99) / 100 + (n + 399) / 400

/-- The days of a cycle. -/
def cycleDays : Nat := 146097

/-- The days from 1 January of year 0 to 1 January 1970. -/
def daysToEpoch : Int := 719528

/-- A date. Months and days count from 1. -/
structure Date where
  year : Int
  month : Nat
  day : Nat
deriving DecidableEq, Repr

/-- The month, counted from 0, and the day in it, counted from 0, of a day of the year. -/
def splitMonths : List Nat → Nat → Nat × Nat
  | [], day => (0, day)
  | length :: lengths, day =>
    if day < length then (0, day)
    else ((splitMonths lengths (day - length)).1 + 1, (splitMonths lengths (day - length)).2)

/-- The year of a cycle in which a day of it falls. -/
def yearOfCycle (day : Nat) : Nat :=
  if daysOfYears (day / 365) ≤ day then day / 365 else day / 365 - 1

/-- The date of a day counted from 1 January 1970. -/
def Date.ofDay (day : Int) : Date :=
  let fromZero := day + daysToEpoch
  let cycle := fromZero / cycleDays
  let inCycle := (fromZero % cycleDays).toNat
  let n := yearOfCycle inCycle
  let year := 400 * cycle + n
  let (month, dayOfMonth) := splitMonths (monthLengths (isLeap year)) (inCycle - daysOfYears n)
  ⟨year, month + 1, dayOfMonth + 1⟩

/-- Whether the month exists and has the day. -/
def Date.isValid (d : Date) : Bool :=
  1 ≤ d.month && 1 ≤ d.day &&
    match (monthLengths (isLeap d.year))[d.month - 1]? with
    | some length => d.day ≤ length
    | none => false

/-- The day of a date, counted from 1 January 1970. -/
def Date.toDay (d : Date) : Int :=
  let n := (d.year % 400).toNat
  let months := ((monthLengths (isLeap d.year)).take (d.month - 1)).foldl (· + ·) 0
  d.year / 400 * cycleDays + (daysOfYears n + months + (d.day - 1) : Nat) - daysToEpoch

end Ferry.Time
