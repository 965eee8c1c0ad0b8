/-! Decimal numerals: strings of ASCII digits and the number they denote. -/
namespace Ferry.Text

/-- The value of an ASCII digit. -/
def digit? (c : Char) : Option Nat :=
  if '0' ≤ c ∧ c ≤ '9' then some (c.toNat - '0'.toNat) else none

/-- Whether a character is an ASCII digit. -/
def isDigit (c : Char) : Bool := (digit? c).isSome

/-- The number that `n` followed by the given digits denotes; nothing where another character
stands among them. -/
def readDigits (n : Nat) : List Char → Option Nat
  | [] => some n
  | c :: cs => (digit? c).bind fun d => readDigits (10 * n + d) cs

/-- The number denoted by one or more digits. -/
def readNumeral? : List Char → Option Nat
  | [] => none
  | cs => readDigits 0 cs

/-- An unsigned 64-bit number: one or more digits. -/
def readWord? (s : List Char) : Option Nat := (readNumeral? s).filter (· < UInt64.size)

/-- An unsigned 64-bit count: one or more digits, a plus sign before them or not. -/
def readCount? (s : List Char) : Option Nat :=
  match s with
  | '+' :: digits => readWord? digits
  | _ => readWord? s

/-- `n` in decimal digits, at least `width` of them. -/
def padded (width n : Nat) : List Char :=
  let digits := Nat.toDigits 10 n
  List.replicate (width - digits.length) '0' ++ digits

/-- Lowercase hexadecimal digit of a value below sixteen. -/
def hexDigit (n : Nat) : Char :=
  Char.ofNat (if n < 10 then 48 + n else 87 + n)

/-- The value of a hexadecimal digit of either case. -/
def hexValue? (c : Char) : Option Nat :=
  if '0' ≤ c ∧ c ≤ '9' then some (c.toNat - 48)
  else if 'a' ≤ c ∧ c ≤ 'f' then some (c.toNat - 87)
  else if 'A' ≤ c ∧ c ≤ 'F' then some (c.toNat - 55)
  else none

end Ferry.Text
