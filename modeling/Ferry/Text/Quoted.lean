import Ferry.Text.Printable
import Ferry.Text.Numeral
import Ferry.Text.Utf8

/-! Text between double quotes, as messages show it: what cannot be seen is written as an escape. -/
namespace Ferry.Text

/-- The escape of a character by its code point, in lowercase hexadecimal without leading zeros. -/
def codeEscape (c : Char) : List Char :=
  "\\u\x7b".toList ++ Nat.toDigits 16 c.toNat ++ ['\x7d']

/-- A character between quotes. -/
def quotedChar (c : Char) : List Char :=
  match c with
  | '\x00' => ['\\', '0']
  | '\t' => ['\\', 't']
  | '\r' => ['\\', 'r']
  | '\n' => ['\\', 'n']
  | '\\' => ['\\', '\\']
  | '"' => ['\\', '"']
  | c => if isPrintable c then [c] else codeEscape c

/-- A text between double quotes. -/
def quoted (s : String) : String :=
  String.ofList ('"' :: s.toList.flatMap quotedChar ++ ['"'])

/-- A byte as an escape of two uppercase hexadecimal digits. -/
def byteEscape (b : UInt8) : List Char :=
  '\\' :: 'x' :: [hexDigit (b.toNat / 16), hexDigit (b.toNat % 16)].map Char.toUpper

/-- A byte string between double quotes: its characters, and its broken bytes one by one. -/
def quotedBytes (bs : List UInt8) : String :=
  String.ofList ('"' :: (Utf8.pieces bs).flatMap (fun
    | .char c => quotedChar c
    | .broken raw => raw.flatMap byteEscape) ++ ['"'])

end Ferry.Text
