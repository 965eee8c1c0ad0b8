import Ferry.Json.Lexeme
import Ferry.Json.Reader

/-!
JSON texts as a grammar. A tree is a value as it is written, with the space around its signs, the
spelling of its texts and the digits of its numbers; whatever it is made of is well formed, so that
every tree is a value. `Tree.chars` are its characters, and `Tree.draft` is what they mean to a
reader: texts and numbers may be well formed and still not usable.
-/
namespace Ferry.Json

open Ferry.Text

/-- Space between the signs of a text. -/
structure Space where
  chars : List Char
  blank : ∀ c ∈ chars, isSpace c = true

/-- No space at all. -/
def Space.none : Space := ⟨[], List.forall_mem_nil _⟩

/-! ### Texts -/

/-- A sign of a text: a character as it is, or an escape by a letter or a code. -/
inductive TextSign
  | plain (c : Char) (allowed : 0x20 ≤ c.toNat ∧ c ≠ '"' ∧ c ≠ '\\')
  | letter (e c : Char) (stands : escape? e = some c)
  | code (a b c d : Char) (n : Nat) (digits : code? a b c d = some n)

def TextSign.chars : TextSign → List Char
  | .plain c _ => [c]
  | .letter e _ _ => ['\\', e]
  | .code a b c d _ _ => ['\\', 'u', a, b, c, d]

def TextSign.unit : TextSign → TextUnit
  | .plain c _ => .char c
  | .letter _ c _ => .char c
  | .code _ _ _ _ n _ => .code n

/-- A text as it is spelled between its quotes. -/
abbrev Spelling := List TextSign

/-- The characters after the opening quote, the closing one among them. -/
def Spelling.chars (w : Spelling) : List Char := w.flatMap TextSign.chars ++ ['"']

/-- The text that is spelled, if it is one: halves of surrogate pairs may have no partner. -/
def Spelling.value (w : Spelling) : Except Fault String :=
  (unitChars none (w.map TextSign.unit)).map String.ofList

/-! ### Numbers -/

/-- One digit or more. -/
structure Digits where
  chars : List Char
  some_digit : chars ≠ []
  digits : ∀ c ∈ chars, isDigit c = true

/-- The number that digits denote. -/
def Digits.value (ds : Digits) : Int := ((readDigits 0 ds.chars).getD 0 : Nat)

/-- The sign before the digits of an exponent. -/
inductive ExponentSign
  | none
  | plus
  | minus

def ExponentSign.chars : ExponentSign → List Char
  | .none => []
  | .plus => ['+']
  | .minus => ['-']

def ExponentSign.isMinus : ExponentSign → Bool
  | .minus => true
  | _ => false

/-- The exponent of a number, with its mark. -/
structure Exponent where
  mark : Char
  isMark : mark = 'e' ∨ mark = 'E'
  sign : ExponentSign
  digits : Digits

namespace Exponent

def chars (x : Exponent) : List Char := x.mark :: (x.sign.chars ++ x.digits.chars)

def value (x : Exponent) : Int := if x.sign.isMinus then -x.digits.value else x.digits.value

end Exponent

/-- A number as it is written: whole digits, the first of several no zero, and the digits after the
point and the exponent if there are any. -/
structure Numeral where
  negative : Bool
  whole : Digits
  no_leading_zero : ∀ ds, whole.chars = '0' :: ds → ds = []
  places : Option Digits
  exponent : Option Exponent

namespace Numeral

/-- The point and the digits after it, if there are any. -/
def pointChars (places : Option Digits) : List Char :=
  (places.map fun ds => '.' :: ds.chars).getD []

/-- The exponent, if there is one. -/
def exponentChars (x : Option Exponent) : List Char := (x.map Exponent.chars).getD []

def signChars (negative : Bool) : List Char := if negative then ['-'] else []

def chars (n : Numeral) : List Char :=
  signChars n.negative ++ (n.whole.chars ++ (pointChars n.places ++ exponentChars n.exponent))

/-- The number that is denoted, if it is not too large. -/
def value (n : Numeral) : Except Fault Number :=
  numberOf n.negative n.whole.chars (n.places.map Digits.chars) (n.exponent.map Exponent.value)

end Numeral

/-! ### Values -/

/-- Something with space around it. -/
structure Padded (α : Type) where
  before : Space
  value : α
  after : Space

/-- Something under a name, with space before the name, before the colon and around the value. -/
structure Labelled (α : Type) where
  before : Space
  name : Spelling
  between : Space
  value : Padded α

/-- A value as it is written. Lists and objects may hold space even if they hold nothing else. -/
inductive Tree
  | null
  | boolean (b : Bool)
  | number (n : Numeral)
  | string (w : Spelling)
  | array (space : Space) (items : List (Padded Tree))
  | object (space : Space) (members : List (Labelled Tree))

mutual
/-- A value as characters. -/
def Tree.chars : Tree → List Char
  | .null => "null".toList
  | .boolean true => "true".toList
  | .boolean false => "false".toList
  | .number n => n.chars
  | .string w => '"' :: w.chars
  | .array space items => '[' :: (space.chars ++ (Tree.itemChars items ++ [']']))
  | .object space members => '\x7b' :: (space.chars ++ (Tree.memberChars members ++ ['\x7d']))

/-- The items of a list with commas between them. -/
def Tree.itemChars : List (Padded Tree) → List Char
  | [] => []
  | [⟨before, v, after⟩] => before.chars ++ (Tree.chars v ++ after.chars)
  | ⟨before, v, after⟩ :: p :: ps =>
    before.chars ++ (Tree.chars v ++ (after.chars ++ ',' :: Tree.itemChars (p :: ps)))

/-- The members of an object with commas between them. -/
def Tree.memberChars : List (Labelled Tree) → List Char
  | [] => []
  | [⟨start, name, between, before, v, after⟩] =>
    start.chars ++ '"' :: (name.chars ++ (between.chars ++ ':' ::
      (before.chars ++ (Tree.chars v ++ after.chars))))
  | ⟨start, name, between, before, v, after⟩ :: m :: ms =>
    start.chars ++ '"' :: (name.chars ++ (between.chars ++ ':' ::
      (before.chars ++ (Tree.chars v ++ (after.chars ++ ',' :: Tree.memberChars (m :: ms))))))
end

mutual
/-- A value as far as it can be used. -/
def Tree.draft : Tree → Draft
  | .null => .null
  | .boolean b => .boolean b
  | .number n => .number n.value
  | .string w => .string w.value
  | .array _ items => .array (Tree.itemDrafts items) none
  | .object _ members => .object (Tree.memberDrafts members) none

/-- The items of a list as drafts. -/
def Tree.itemDrafts : List (Padded Tree) → List Draft
  | [] => []
  | ⟨_, v, _⟩ :: ps => Tree.draft v :: Tree.itemDrafts ps

/-- The members of an object as drafts. -/
def Tree.memberDrafts : List (Labelled Tree) → List (Except Fault String × Draft)
  | [] => []
  | ⟨_, name, _, _, v, _⟩ :: ms => (name.value, Tree.draft v) :: Tree.memberDrafts ms
end

/-! ### Whole texts -/

/-- A whole text: one value, and space around it. -/
abbrev Document := Padded Tree

namespace Document

def chars (doc : Document) : List Char :=
  doc.before.chars ++ (doc.value.chars ++ doc.after.chars)

def text (doc : Document) : String := String.ofList doc.chars

end Document
end Ferry.Json
