import Ferry.Json.Basic

/-!
The texts and numbers of JSON, read from the front of a list of characters. Each reader gives what
the text or number means to whoever uses it, and the characters after it, or the fault at which
even passing over it has to stop. The two can differ: half a surrogate pair and a number too large
for a double can be passed over, but not used.
-/
namespace Ferry.Json

open Ferry.Text Ferry.Numeric

/-- The characters after what was read, or the fault that ended the reading. -/
abbrev Rest := Except Fault (List Char)

/-- One unit of a text: a character, or a 16-bit code written as four hexadecimal digits. -/
inductive TextUnit
  | char (c : Char)
  | code (n : Nat)
deriving DecidableEq, Repr

/-- The character that a letter after a backslash stands for. -/
def escape? : Char → Option Char
  | '"' => some '"'
  | '\\' => some '\\'
  | '/' => some '/'
  | 'b' => some '\x08'
  | 'f' => some '\x0c'
  | 'n' => some '\n'
  | 'r' => some '\r'
  | 't' => some '\t'
  | _ => none

/-- The value of four hexadecimal digits. -/
def code? (a b c d : Char) : Option Nat := do
  let a ← hexValue? a
  let b ← hexValue? b
  let c ← hexValue? c
  let d ← hexValue? d
  some (((a * 16 + b) * 16 + c) * 16 + d)

/-- How many bytes a text takes in UTF-8. -/
def byteCount (cs : List Char) : Nat := cs.foldl (fun n c => n + c.utf8Size) 0

/-- The units of a text up to its closing quote, the opening one already read. An escape by code
that has fewer than four bytes of text left is cut off, whatever they are. -/
def textUnits : List Char → List TextUnit × Rest
  | [] => ([], .error .truncated)
  | '"' :: cs => ([], .ok cs)
  | ['\\'] => ([], .error .truncated)
  | '\\' :: 'u' :: a :: b :: c :: d :: cs =>
    match code? a b c d with
    | some n => (.code n :: (textUnits cs).1, (textUnits cs).2)
    | none => ([], .error .malformed)
  | '\\' :: 'u' :: cs => ([], .error (if byteCount cs < 4 then .truncated else .malformed))
  | '\\' :: e :: cs =>
    match escape? e with
    | some c => (.char c :: (textUnits cs).1, (textUnits cs).2)
    | none => ([], .error .malformed)
  | c :: cs =>
    if c.toNat < 0x20 then ([], .error .malformed)
    else (.char c :: (textUnits cs).1, (textUnits cs).2)

/-- The first half of a surrogate pair. -/
def isHighHalf (n : Nat) : Bool := 0xD800 ≤ n && n ≤ 0xDBFF

/-- The second half of a surrogate pair. -/
def isLowHalf (n : Nat) : Bool := 0xDC00 ≤ n && n ≤ 0xDFFF

/-- The character that the two halves of a pair stand for. -/
def pairChar (high low : Nat) : Char :=
  Char.ofNat (0x10000 + (high - 0xD800) * 0x400 + (low - 0xDC00))

/-- The characters of a text from its units, `stop` being the fault that ended it. A half without
its partner makes the text unusable. -/
def unitChars (stop : Option Fault) : List TextUnit → Except Fault (List Char)
  | [] => match stop with
    | none => .ok []
    | some fault => .error fault
  | .char c :: us => (unitChars stop us).map (c :: ·)
  | .code n :: us =>
    if isLowHalf n then .error .malformed
    else if isHighHalf n then
      match us with
      | .code m :: us =>
        if isLowHalf m then (unitChars stop us).map (pairChar n m :: ·) else .error .malformed
      | .char _ :: _ => .error .malformed
      | [] => .error (stop.getD .malformed)
    else (unitChars stop us).map (Char.ofNat n :: ·)

/-- The text after an opening quote. -/
def readText (cs : List Char) : Except Fault String × Rest :=
  let (units, rest) := textUnits cs
  ((unitChars (Draft.faultOf rest) units).map String.ofList, rest)

/-- The digits of a list, from the front, that fit a 64-bit word together with the `n` before
them: the number they make and how many they are. -/
def fitWord (n : Nat) : List Char → Nat × Nat
  | [] => (n, 0)
  | c :: cs =>
    let m := 10 * n + (digit? c).getD 0
    if m < UInt64.size then ((fitWord m cs).1, (fitWord m cs).2 + 1) else (n, 0)

/-- The number that an optional minus sign, whole digits, digits after the point and an exponent
denote. Without a point, an exponent or a fault of size it is whole. Digits beyond a 64-bit word
only count by their place. -/
def numberOf (negative : Bool) (whole : List Char) (places : Option (List Char))
    (exponent : Option Int) : Except Fault Number :=
  let (n, used) := fitWord 0 whole
  let dropped := whole.length - used
  let isWhole := places.isNone && exponent.isNone && dropped = 0
  if isWhole && !negative then .ok (.integer n)
  else if isWhole && 0 < n && n ≤ 0x8000000000000000 then .ok (.integer (-n))
  else
    let (significand, usedPlaces) := fitWord n (places.getD [])
    match Double.ofScaled? negative significand (exponent.getD 0 + dropped - usedPlaces) with
    | some x => .ok (.real x)
    | none => .error .malformed

/-- A number that lacks the digits it needs here: whoever uses it finds the end of the text, if
that is what follows. -/
def lackingDigits (rest : List Char) : Except Fault Number × Rest :=
  (.error (if rest.isEmpty then .truncated else .malformed), .error .malformed)

/-- The number after its point and the digits there, if any. -/
def readExponent (negative : Bool) (whole : List Char) (places : Option (List Char))
    (cs : List Char) : Except Fault Number × Rest :=
  let signed (minus : Bool) (cs : List Char) : Except Fault Number × Rest :=
    let digits := cs.takeWhile isDigit
    if digits.isEmpty then lackingDigits cs
    else
      let size : Int := ((readDigits 0 digits).getD 0 : Nat)
      (numberOf negative whole places (some (if minus then -size else size)),
        .ok (cs.dropWhile isDigit))
  let afterMark (cs : List Char) : Except Fault Number × Rest :=
    match cs with
    | '+' :: cs => signed false cs
    | '-' :: cs => signed true cs
    | cs => signed false cs
  match cs with
  | 'e' :: cs => afterMark cs
  | 'E' :: cs => afterMark cs
  | cs => (numberOf negative whole places none, .ok cs)

/-- The number after its sign. -/
def readMagnitude (negative : Bool) (cs : List Char) : Except Fault Number × Rest :=
  let whole := cs.takeWhile isDigit
  let rest := cs.dropWhile isDigit
  match whole with
  | [] => lackingDigits rest
  | '0' :: _ :: _ => (.error .malformed, .error .malformed)
  | _ =>
    match rest with
    | '.' :: rest =>
      let places := rest.takeWhile isDigit
      if places.isEmpty then lackingDigits rest
      else readExponent negative whole (some places) (rest.dropWhile isDigit)
    | rest => readExponent negative whole none rest

/-- A number, from its sign or first digit on. -/
def readNumber : List Char → Except Fault Number × Rest
  | '-' :: cs => readMagnitude true cs
  | cs => readMagnitude false cs

end Ferry.Json
