import Ferry.Json.Basic

/-! Writing a JSON value without space, members in their order. -/
namespace Ferry.Json

open Ferry.Text

/-- A character of a text. Only the quote, the backslash and the controls below the space are
escaped, those with a letter of their own by that letter. -/
def textChar (c : Char) : List Char :=
  match c with
  | '"' => ['\\', '"']
  | '\\' => ['\\', '\\']
  | '\x08' => ['\\', 'b']
  | '\x0c' => ['\\', 'f']
  | '\n' => ['\\', 'n']
  | '\r' => ['\\', 'r']
  | '\t' => ['\\', 't']
  | c =>
    if c.toNat < 0x20 then
      ['\\', 'u', '0', '0', hexDigit (c.toNat / 16), hexDigit (c.toNat % 16)]
    else [c]

/-- A text between its quotes. -/
def writeText (s : String) : List Char := '"' :: s.toList.flatMap textChar ++ ['"']

/-- A number in decimal. -/
def writeNumber : Number → List Char
  | .integer n => (toString n).toList
  | .real x => x.text.toList

mutual
/-- A value as characters. -/
def chars : Json → List Char
  | .null => "null".toList
  | .boolean true => "true".toList
  | .boolean false => "false".toList
  | .number n => writeNumber n
  | .string s => writeText s
  | .array items => '[' :: itemChars items ++ [']']
  | .object members => '\x7b' :: memberChars members ++ ['\x7d']

/-- The items of a list with commas between them. -/
def itemChars : List Json → List Char
  | [] => []
  | [v] => chars v
  | v :: w :: vs => chars v ++ ',' :: itemChars (w :: vs)

/-- The members of an object with commas between them. -/
def memberChars : List (String × Json) → List Char
  | [] => []
  | [(name, v)] => writeText name ++ ':' :: chars v
  | (name, v) :: m :: ms => writeText name ++ ':' :: chars v ++ ',' :: memberChars (m :: ms)
end

/-- A value as a string. -/
def render (v : Json) : String := String.ofList v.chars

end Ferry.Json
