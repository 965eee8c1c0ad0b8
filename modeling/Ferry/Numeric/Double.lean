import Ferry.Numeric.Rounding
import Ferry.Text.Numeral

/-!
Finite binary numbers of double precision, read from a scaled decimal and written with the fewest
digits that read back. All arithmetic is exact, on whole numbers, and rounded once per step.
-/
namespace Ferry.Numeric

/-- `± mantissa · 2 ^ (shift - 1074)`, with a mantissa below `2 ^ 53`. -/
structure Double where
  negative : Bool
  mantissa : Nat
  shift : Nat
deriving DecidableEq, Repr

namespace Double

/-- The least power of two by which no double is finite any more. -/
def maxShift : Nat := 2046

/-- The double nearest to `num / den`, a half to the even mantissa; nothing beyond the largest
finite one. The unit in the last place is `2 ^ (shift - 1074)`, for the least shift that leaves no
more than 53 binary digits. -/
def ofQuotient? (num den : Nat) : Option Double :=
  let scaled := num * Nat.pow 2 1074
  let shift := Nat.log2 (scaled / den) + 1 - 53
  let rounded := roundHalfEven scaled (den * Nat.pow 2 shift)
  let (mantissa, shift) :=
    if rounded = Nat.pow 2 53 then (Nat.pow 2 52, shift + 1) else (rounded, shift)
  if shift < maxShift then some ⟨false, mantissa, shift⟩ else none

/-- The absolute value as an exact quotient. -/
def toQuotient (x : Double) : Nat × Nat := (x.mantissa * Nat.pow 2 x.shift, Nat.pow 2 1074)

/-- The product with a double that stands for `10 ^ k`; nothing beyond the largest finite
double. -/
def timesTen (x : Double) (k : Nat) : Option Double := do
  let power ← ofQuotient? (Nat.pow 10 k) 1
  let (a, b) := x.toQuotient
  let (c, d) := power.toQuotient
  ofQuotient? (a * c) (b * d)

/-- The quotient by a double that stands for `10 ^ k`. -/
def overTen (x : Double) (k : Nat) : Option Double := do
  let power ← ofQuotient? (Nat.pow 10 k) 1
  let (a, b) := x.toQuotient
  let (c, d) := power.toQuotient
  ofQuotient? (a * d) (b * c)

/-- `± significand · 10 ^ exponent`, where the significand is made a double first and then scaled
by at most `10 ^ 308` at a time; nothing where the result is beyond the largest finite double. -/
def ofScaled? (negative : Bool) (significand : Nat) (exponent : Int) : Option Double := do
  let x ← ofQuotient? significand 1
  let y ← if x.mantissa = 0 then some x
    else if 308 < exponent then none
    else if 0 ≤ exponent then x.timesTen exponent.toNat
    else if -308 ≤ exponent then x.overTen (-exponent).toNat
    else if -616 ≤ exponent then (← x.overTen 308).overTen (-exponent - 308).toNat
    else some ⟨false, 0, 0⟩
  some { y with negative }

/-- Whether `num / den` reads back as the given positive double: it lies in the interval of
numbers nearest to it, whose ends belong to it where the mantissa is even. -/
def readsBack (x : Double) (num den : Nat) : Bool :=
  ofQuotient? num den = some { x with negative := false }

/-- A multiple of `10 ^ last` that reads back: the one nearest to `num / den` if it does, else
either neighbour. The answer is the multiplier. -/
def candidate? (x : Double) (num den : Nat) (last : Int) : Option Nat :=
  let (scaledNum, scaledDen) :=
    if 0 ≤ last then (num, den * Nat.pow 10 last.toNat) else (num * Nat.pow 10 (-last).toNat, den)
  let value (m : Nat) : Nat × Nat :=
    if 0 ≤ last then (m * Nat.pow 10 last.toNat, 1) else (m, Nat.pow 10 (-last).toNat)
  let fits (m : Nat) : Bool := x.readsBack (value m).1 (value m).2
  let below := scaledNum / scaledDen
  let near := roundHalfEven scaledNum scaledDen
  if fits near then some near
  else if fits below then some below
  else if fits (below + 1) then some (below + 1)
  else none

/-- The power of ten of the leading digit of `num / den`. -/
def leadingPower (num den : Nat) : Int :=
  let digits := (Nat.toDigits 10 (num / den)).length
  if num / den ≠ 0 then digits - 1
  else
    let inverse := den / num
    let k := (Nat.toDigits 10 inverse).length
    if num * Nat.pow 10 (k - 1) ≥ den then -(k - 1 : Nat) else -(k : Int)

/-- The fewest significant digits that read back, and the power of ten of the last of them. -/
def shortest (x : Double) : Nat × Int :=
  let (num, den) := x.toQuotient
  let lead := leadingPower num den
  let found := (List.range 17).findSome? fun (n : Nat) =>
    let last := lead - n
    (candidate? x num den last).map fun m => (m, last)
  found.getD (num / den, 0)

/-- The digits without the zeros at their end, the power of ten raised for each. -/
def stripZeros : Nat → Nat → Int → Nat × Int
  | 0, m, last => (m, last)
  | fuel + 1, m, last =>
    if m ≠ 0 ∧ m % 10 = 0 then stripZeros fuel (m / 10) (last + 1) else (m, last)

/-- Doubles of an exponent from -5 to 15 are written positionally, with a digit after the point at
least; others with one digit before the point and a signed exponent. -/
def text (x : Double) : String :=
  let sign := if x.negative then ['-'] else []
  if x.mantissa = 0 then String.ofList (sign ++ "0.0".toList)
  else
    let (m, last) := let (m, last) := x.shortest; stripZeros 20 m last
    let digits := Nat.toDigits 10 m
    let exponent : Int := last + digits.length - 1
    let body :=
      if 0 ≤ last ∧ exponent < 16 then
        digits ++ List.replicate last.toNat '0' ++ ".0".toList
      else if 0 ≤ exponent ∧ exponent < 16 then
        digits.take (exponent.toNat + 1) ++ '.' :: digits.drop (exponent.toNat + 1)
      else if -5 ≤ exponent ∧ exponent < 0 then
        "0.".toList ++ List.replicate (-exponent - 1).toNat '0' ++ digits
      else
        let tail := if digits.length = 1 then [] else '.' :: digits.drop 1
        digits.take 1 ++ tail ++ ['e', if exponent < 0 then '-' else '+'] ++
          Nat.toDigits 10 exponent.natAbs
    String.ofList (sign ++ body)

end Double
end Ferry.Numeric
