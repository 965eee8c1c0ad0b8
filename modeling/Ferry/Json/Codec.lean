import Ferry.Json.Position
import Ferry.Json.Reader
import Ferry.Json.Writer
import Ferry.Text.Quoted

/-!
Codecs: how a type is read from a draft and written as a value. Reading goes through the draft in
the order of the text and stops at the first problem, be it of the text or of its meaning.
-/
namespace Ferry.Json

open Ferry.Text

/-- Why a draft does not hold what was wanted. -/
inductive Problem
  /-- The text is not JSON there. -/
  | fault (fault : Fault)
  /-- A value of another type. -/
  | wrongType (found wanted : String)
  /-- A whole number outside the wanted range. -/
  | outOfRange (n : Int) (wanted : String)
  /-- A list with fewer items than the record has required fields. -/
  | tooShort (given : Nat) (record : String) (fields : Nat)
  /-- A list with more items than the record has fields. -/
  | tooLong (given : Nat)
  /-- A required field that is not there. -/
  | missingField (name : String)
  /-- A field that is there twice. -/
  | duplicateField (name : String)
  /-- A value that says nothing sensible, in the words of whoever read it. -/
  | invalid (reason : String)
deriving DecidableEq, Repr

/-- A name between backquotes. -/
def backquoted (s : String) : String := "`" ++ s ++ "`"

/-- The number of fields of a record, in words. -/
def elementCount (n : Nat) : String :=
  if n = 1 then "1 element" else toString n ++ " elements"

/-- The words for a problem of meaning; a fault of the text has none here. Words of others are told
without the position at their end. -/
def Problem.message : Problem → Option String
  | .fault _ => none
  | .wrongType found wanted => some ("invalid type: " ++ found ++ ", expected " ++ wanted)
  | .outOfRange n wanted =>
    some ("invalid value: integer " ++ backquoted (toString n) ++ ", expected " ++ wanted)
  | .tooShort given record fields =>
    some ("invalid length " ++ toString given ++ ", expected struct " ++ record ++ " with "
      ++ elementCount fields)
  | .tooLong given =>
    some ("invalid length " ++ toString given ++ ", expected fewer elements in array")
  | .missingField name => some ("missing field " ++ backquoted name)
  | .duplicateField name => some ("duplicate field " ++ backquoted name)
  | .invalid reason => some (String.ofList (dropPosition reason.toList))

/-- What was found, as messages name it. -/
def Draft.describe : Draft → Except Fault String
  | .null => .ok "null"
  | .boolean b => .ok ("boolean " ++ backquoted (toString b))
  | .number n => n.map fun
    | .integer n => "integer " ++ backquoted (toString n)
    | .real x => "floating point " ++ backquoted x.text
  | .string s => s.map fun s => "string " ++ quoted s
  | .array _ _ => .ok "sequence"
  | .object _ _ => .ok "map"
  | .broken fault => .error fault

/-- The problem with a draft that is not of the wanted type: to say what it is, it has to be
read. -/
def Draft.mismatch (d : Draft) (wanted : String) : Problem :=
  match d.describe with
  | .ok found => .wrongType found wanted
  | .error fault => .fault fault

/-- Nothing to raise, or a fault of the text. -/
def raise : Option Fault → Except Problem Unit
  | none => .ok ()
  | some fault => .error (.fault fault)

/-- How values of a type are read and written. -/
structure Codec (α : Type) where
  read : Draft → Except Problem α
  write : α → Json

namespace Codec

variable {α β : Type}

/-- The codec of a type that stands for another one. -/
def iso (c : Codec α) (forth : α → β) (back : β → α) : Codec β where
  read d := (c.read d).map forth
  write b := c.write (back b)

/-- A text. -/
def text : Codec String where
  read
    | .string (.ok s) => .ok s
    | d => .error (d.mismatch "a string")
  write := .string

/-- A text, or null for none. -/
def optionalText : Codec (Option String) where
  read
    | .null => .ok none
    | d => (text.read d).map some
  write
    | none => .null
    | some s => .string s

/-- A truth value. -/
def flag : Codec Bool where
  read
    | .boolean b => .ok b
    | d => .error (d.mismatch "a boolean")
  write := .boolean

/-- A whole number as a JSON value. -/
def writeInt (n : Int) : Json := .number (.integer n)

/-- An unsigned 64-bit number, called `wanted` in messages. -/
def word (wanted : String) : Codec UInt64 where
  read
    | .number (.ok (.integer n)) =>
      if 0 ≤ n ∧ n.toNat < UInt64.size then .ok (UInt64.ofNat n.toNat)
      else .error (.outOfRange n wanted)
    | d => .error (d.mismatch wanted)
  write n := writeInt n.toNat

/-- A signed 64-bit number, called `wanted` in messages. -/
def signedWord (wanted : String) : Codec Int64 where
  read
    | .number (.ok (.integer n)) =>
      if Int64.minValue.toInt ≤ n ∧ n ≤ Int64.maxValue.toInt then .ok (Int64.ofInt n)
      else .error (.outOfRange n wanted)
    | d => .error (d.mismatch wanted)
  write n := writeInt n.toInt

/-- Reads the items of a list one after another. -/
def readItems (c : Codec α) : List Draft → Except Problem (List α)
  | [] => .ok []
  | d :: ds => do
    let a ← c.read d
    let as ← readItems c ds
    .ok (a :: as)

/-- A list. -/
def list (c : Codec α) : Codec (List α) where
  read
    | .array items stop => do
      let as ← c.readItems items
      raise stop
      .ok as
    | d => .error (d.mismatch "a sequence")
  write as := .array (as.map c.write)

/-- Reads a text that should hold one value and nothing after it. A list that is too long for its
record leaves its end where more text stands. -/
def readText (c : Codec α) (r : Reading) : Except Problem α :=
  match c.read r.draft with
  | .ok a => (raise r.after).map fun _ => a
  | .error (.tooLong _) => .error (.fault .malformed)
  | .error problem => .error problem

/-- Reads a value that is there as a whole, the members of every object in ascending order. -/
def readValue (c : Codec α) (v : Json) : Except Problem α := c.read v.canonical.draft

/-- The text of a value. -/
def writeText (c : Codec α) (a : α) : String := (c.write a).render

end Codec
end Ferry.Json
