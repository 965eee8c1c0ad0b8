/-! Rounding of exact quotients to whole numbers and to a number of binary digits. -/
namespace Ferry.Numeric

/-- `num / den` to the nearest whole number, a half upwards. -/
def roundHalfUp (num den : Nat) : Nat := (2 * num + den) / (2 * den)

/-- `num / den` to the nearest whole number, a half to the even neighbour. -/
def roundHalfEven (num den : Nat) : Nat :=
  let q := num / den
  let r := num % den
  if 2 * r < den then q else if den < 2 * r then q + 1 else q + q % 2

/-- `n` to the nearest multiple of the least power of two that leaves `bits` binary digits, a half
to the even neighbour. -/
def toPrecision (bits n : Nat) : Nat :=
  let unit := Nat.pow 2 (Nat.log2 n + 1 - bits)
  roundHalfEven n unit * unit

end Ferry.Numeric
