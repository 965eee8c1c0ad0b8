import Ferry.Numeric.Rounding
import Ferry.Text.Blank
import Ferry.Text.Numeral
import Ferry.Text.Utf8

/-!
Byte counts as people write them. Units are powers of 1024 in both spellings of a suffix; what is
written has one decimal and the binary spelling.
-/
namespace Ferry.ByteSize

open Ferry.Text Ferry.Numeric

/-- The unit of a power: as many bytes as 1024 multiplied by itself so many times. -/
def unit (power : Nat) : Nat := Nat.pow 1024 power

/-- The suffixes in small letters, with the powers of 1024 that they stand for. -/
def suffixes : List (String × Nat) :=
  [("kb", 1), ("kib", 1), ("mb", 2), ("mib", 2), ("gb", 3), ("gib", 3), ("tb", 4), ("tib", 4),
   ("pb", 5), ("pib", 5), ("eb", 6), ("eib", 6)]

/-- The power of 1024 that a suffix stands for. -/
def power? (suffix : List Char) : Option Nat := suffixes.lookup (String.ofList suffix)

/-- How many bytes at the end of a text may be its suffix. -/
def suffixLength (low : List Char) : Nat := if ['i', 'b'].isSuffixOf low then 3 else 2

/-- The byte at which the suffix of a text would begin; nothing where the text is too short. -/
def suffixStart? (low : List Char) : Option Nat :=
  let length := (Utf8.encode low).length
  if suffixLength low ≤ length then some (length - suffixLength low) else none

/-- A text in small letters as what stands before its suffix and the power of the suffix; nothing
where it ends in none, or where the byte at which one would begin is within a character. -/
def splitSuffix? (low : List Char) : Option (List Char × Nat) :=
  (suffixStart? low).bind fun start =>
  (Utf8.splitAt? low start).bind fun (number, suffix) =>
  (power? suffix).map fun power => (number, power)

/-- A text that is no size. -/
structure Unreadable where
  text : String
deriving DecidableEq, Repr

def Unreadable.message (e : Unreadable) : String := "invalid size value: " ++ e.text

/-- The bytes that a text stands for: a count and a suffix, or else a count alone. -/
def read? (s : List Char) : Option Nat :=
  let low := lowerAscii (trimBlanks s)
  match splitSuffix? low with
  | some (number, power) =>
    (readCount? (trimBlanks number)).bind fun n =>
      let bytes := n * unit power
      if bytes < UInt64.size then some bytes else none
  | none => readCount? low

/-- The bytes that a string stands for. -/
def read (s : String) : Except Unreadable Nat :=
  match read? s.toList with
  | some n => .ok n
  | none => .error ⟨s⟩

/-- The units of output with their powers of 1024. -/
def scales : List (Nat × String) :=
  [(1, "KiB"), (2, "MiB"), (3, "GiB"), (4, "TiB"), (5, "PiB"), (6, "EiB")]

/-- A number of tenths with its point. -/
def tenthsText (tenths : Nat) : String :=
  toString (tenths / 10) ++ "." ++ toString (tenths % 10)

/-- `bytes` in a unit, to the nearest tenth, a half to the even one. -/
def inUnit (bytes power : Nat) : Nat := roundHalfEven (10 * bytes) (unit power)

/-- The scale for a count of at least 1024: the first in which it rounds to less than 1024. -/
def scaleOf? (bytes : Nat) : Option (Nat × String) :=
  scales.find? fun (power, _) => roundHalfUp bytes (unit power) < 1024

/-- A count below 1024 in bytes; another one, taken to 53 binary digits, in its scale. -/
def text (count : Nat) : String :=
  if count = 1 then "1 Byte"
  else if count < 1024 then toString count ++ " Bytes"
  else
    let bytes := toPrecision 53 count
    let (power, name) := (scaleOf? bytes).getD (6, "EiB")
    tenthsText (inUnit bytes power) ++ " " ++ name

end Ferry.ByteSize
