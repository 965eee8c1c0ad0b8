import Ferry.Json.Lexeme

/-! Reading a JSON text: as a draft, with what is wrong after it. -/
namespace Ferry.Json

open Ferry.Text

/-- The space, tabs and line ends that may stand between the signs of a JSON text. -/
def isSpace (c : Char) : Bool := c = ' ' || c = '\n' || c = '\t' || c = '\r'

/-- Drops the space at the front. -/
def skipSpace (cs : List Char) : List Char := cs.dropWhile isSpace

/-- Reads the rest of a word such as `null`. -/
def readWord : List Char → List Char → Rest
  | [], cs => .ok cs
  | _ :: _, [] => .error .truncated
  | w :: ws, c :: cs => if c = w then readWord ws cs else .error .malformed

/-- The draft of a word: its value, if all of it is there. -/
def wordDraft (value : Draft) (rest : Rest) : Draft × Rest :=
  match rest with
  | .ok _ => (value, rest)
  | .error fault => (.broken fault, rest)

/-- What stands where a sign of the grammar is missing. -/
def faultAt : List Char → Fault
  | [] => .truncated
  | _ :: _ => .malformed

mutual
/-- The value at the front of a text, after any space. The first argument bounds the
steps; two for each character, and one, always suffice. -/
def readValue : Nat → List Char → Draft × Rest
  | 0, _ => (.broken .malformed, .error .malformed)
  | fuel + 1, cs =>
    match skipSpace cs with
    | [] => (.broken .truncated, .error .truncated)
    | 'n' :: cs => wordDraft .null (readWord "ull".toList cs)
    | 't' :: cs => wordDraft (.boolean true) (readWord "rue".toList cs)
    | 'f' :: cs => wordDraft (.boolean false) (readWord "alse".toList cs)
    | '"' :: cs =>
      let (text, rest) := readText cs
      (.string text, rest)
    | '[' :: cs =>
      let (items, rest) := match skipSpace cs with
        | [] => ([], .error .truncated)
        | ']' :: cs => ([], .ok cs)
        | cs => readItems fuel cs
      (.array items (Draft.faultOf rest), rest)
    | '{' :: cs =>
      let (members, rest) := match skipSpace cs with
        | '}' :: cs => ([], .ok cs)
        | cs => readMembers fuel cs
      (.object members (Draft.faultOf rest), rest)
    | c :: cs =>
      if c = '-' || isDigit c then
        let (n, rest) := readNumber (c :: cs)
        (.number n, rest)
      else (.broken .malformed, .error .malformed)

/-- The items of a list, from the first or after a comma. After a comma something is an item even
if it cannot be read. -/
def readItems : Nat → List Char → List Draft × Rest
  | 0, _ => ([], .error .malformed)
  | fuel + 1, cs =>
    let (item, rest) := readValue fuel cs
    match rest with
    | .error fault => ([item], .error fault)
    | .ok cs =>
      match skipSpace cs with
      | ',' :: cs =>
        let (items, rest) := readItems fuel cs
        (item :: items, rest)
      | ']' :: cs => ([item], .ok cs)
      | cs => ([item], .error (faultAt cs))

/-- The members of an object, from the first or after a comma. -/
def readMembers : Nat → List Char → List (Except Fault String × Draft) × Rest
  | 0, _ => ([], .error .malformed)
  | fuel + 1, cs =>
    match skipSpace cs with
    | '"' :: cs =>
      let (name, rest) := readText cs
      match rest with
      | .error fault => ([(name, .broken fault)], .error fault)
      | .ok cs =>
        match skipSpace cs with
        | ':' :: cs =>
          let (value, rest) := readValue fuel cs
          match rest with
          | .error fault => ([(name, value)], .error fault)
          | .ok cs =>
            match skipSpace cs with
            | ',' :: cs =>
              let (members, rest) := readMembers fuel cs
              ((name, value) :: members, rest)
            | '}' :: cs => ([(name, value)], .ok cs)
            | cs => ([(name, value)], .error (faultAt cs))
        | cs => ([(name, .broken (faultAt cs))], .error (faultAt cs))
    | cs => ([], .error (faultAt cs))
end

/-- A text as far as it can be read: its value, and the fault that follows the value. -/
structure Reading where
  draft : Draft
  after : Option Fault

/-- Reads a text that should be one JSON value with nothing but space around it. -/
def Reading.ofChars (cs : List Char) : Reading :=
  let (draft, rest) := readValue (2 * cs.length + 1) cs
  { draft, after := match rest with
      | .error fault => some fault
      | .ok cs => if (skipSpace cs).isEmpty then none else some .malformed }

/-- Reads a string that should be one JSON value. -/
def Reading.ofString (s : String) : Reading := .ofChars s.toList

/-- The value of a text that holds exactly one. -/
def Reading.value? (r : Reading) : Option Json :=
  if r.after.isSome then none else r.draft.value?

end Ferry.Json
