import Ferry.Time.Calendar

/-!
Instants, as whole seconds since the start of 1970 in universal time and nanoseconds. A leap second
shares the count of the second before it and has a billion nanoseconds more.
-/
namespace Ferry.Time

/-- The nanoseconds of a second. -/
def billion : Nat := 1000000000

/-- An instant. -/
structure Instant where
  secs : Int
  nanos : Nat
deriving DecidableEq, Repr

/-- The first and the last second of the calendar range: years -262143 to 262142. -/
def firstSecond : Int := -8334601228800

/-- The last second of the calendar range. -/
def lastSecond : Int := 8210266876799

/-- The instant of a second count and nanoseconds, if it is in the calendar range. Only the last
second of a minute has a leap second after it. -/
def Instant.of? (secs : Int) (nanos : Nat) : Option Instant :=
  if firstSecond ≤ secs ∧ secs ≤ lastSecond ∧ nanos < 2 * billion ∧
      (nanos < billion ∨ secs % 60 = 59) then
    some ⟨secs, nanos⟩
  else none

/-- A clock reading of the operating system: how far from the start of 1970 it is, and on which
side. -/
structure Distance where
  before : Bool
  secs : Nat
  nanos : Nat
deriving DecidableEq, Repr

/-- The distance of `secs` seconds and `nanos` nanoseconds, the latter below a billion and always
counted forwards. -/
def Distance.of (secs : Int) (nanos : Nat) : Distance :=
  if 0 ≤ secs then ⟨false, secs.toNat, nanos⟩
  else if nanos = 0 then ⟨true, (-secs).toNat, 0⟩
  else ⟨true, (-secs - 1).toNat, billion - nanos⟩

/-- The instant at a distance: before 1970 a part of a second counts from the second below. None
where the seconds are beyond a signed 64-bit word or the instant is out of range. -/
def Distance.instant? (d : Distance) : Option Instant :=
  if Int64.maxValue.toInt < d.secs then none
  else if d.before then
    if d.nanos = 0 then Instant.of? (-d.secs) 0
    else Instant.of? (-d.secs - 1) (billion - d.nanos)
  else Instant.of? d.secs d.nanos

end Ferry.Time
