/-! Base64: three bytes as four characters of six bits each, the last ones filled up with `=`. -/
namespace Ferry.Digest

/-- The characters of the values 0 to 63. -/
def base64Alphabet : List Char :=
  "ABCDEFGHIJKLMNOPQRSTUVWXYZabcdefghijklmnopqrstuvwxyz0123456789+/".toList

/-- The character of a value. -/
def base64Char (n : Nat) : Char := base64Alphabet.getD n '='

/-- The `i`-th six bits from the top of 24. -/
def sextet (n i : Nat) : Char := base64Char (n / Nat.pow 64 (3 - i) % 64)

/-- Bytes in Base64. -/
def base64 : List UInt8 → List Char
  | [] => []
  | [a] =>
    let n := a.toNat * 65536
    [sextet n 0, sextet n 1, '=', '=']
  | [a, b] =>
    let n := a.toNat * 65536 + b.toNat * 256
    [sextet n 0, sextet n 1, sextet n 2, '=']
  | a :: b :: c :: rest =>
    let n := a.toNat * 65536 + b.toNat * 256 + c.toNat
    sextet n 0 :: sextet n 1 :: sextet n 2 :: sextet n 3 :: base64 rest

end Ferry.Digest
