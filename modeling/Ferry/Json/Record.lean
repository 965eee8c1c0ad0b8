import Ferry.Json.Codec

/-!
Records: types with named fields, read from an object in any order or from a list in the order of
the fields. A record is given by its list of fields, and that one list says how it is read and how
it is written. Names outside the list are passed over with their values.
-/
namespace Ferry.Json

/-- A field of a record: its name, how its values are read and written, the value it has when it is
not given (none if it must be), and which values are left out of what is written. -/
structure Field where
  name : String
  type : Type
  codec : Codec type
  absent : Option type
  hidden : type → Bool

namespace Field

/-- A field that must be given. -/
def required {α : Type} (name : String) (codec : Codec α) : Field :=
  ⟨name, α, codec, none, fun _ => false⟩

/-- A field with a default value, always written. -/
def default {α : Type} (name : String) (codec : Codec α) (absent : α) : Field :=
  ⟨name, α, codec, some absent, fun _ => false⟩

/-- A field with a default value, left out where `hidden` says so. -/
def optional {α : Type} (name : String) (codec : Codec α) (absent : α) (hidden : α → Bool) :
    Field :=
  ⟨name, α, codec, some absent, hidden⟩

/-- A text that may be absent, left out when it is. -/
def maybeText (name : String) : Field := optional name Codec.optionalText none Option.isNone

end Field

/-- The values of the fields, in their order. -/
def Row : List Field → Type
  | [] => Unit
  | f :: fs => f.type × Row fs

/-- The values of the fields that have been read so far. -/
def Slots : List Field → Type
  | [] => Unit
  | f :: fs => Option f.type × Slots fs

namespace Slots

/-- Nothing read yet. -/
def empty : (fs : List Field) → Slots fs
  | [] => ()
  | _ :: fs => (none, empty fs)

/-- Reads the member `name`. One that is no field is passed over, one that was read before is
refused unread. -/
def fill : (fs : List Field) → String → Draft → Slots fs → Except Problem (Slots fs)
  | [], _, d, slots => (raise d.gap).map fun _ => slots
  | f :: fs, name, d, (slot, slots) =>
    if f.name = name then
      match slot with
      | some _ => .error (.duplicateField name)
      | none => (f.codec.read d).map fun v => (some v, slots)
    else (fill fs name d slots).map fun slots => (slot, slots)

/-- Reads members one after another. -/
def fillAll (fs : List Field) : List (Except Fault String × Draft) → Slots fs →
    Except Problem (Slots fs)
  | [], slots => .ok slots
  | (.error fault, _) :: _, _ => .error (.fault fault)
  | (.ok name, d) :: ms, slots => do
    let slots ← fill fs name d slots
    fillAll fs ms slots

/-- The row of what was read, defaults in place of what was not. -/
def row : (fs : List Field) → Slots fs → Except Problem (Row fs)
  | [], _ => .ok ()
  | f :: fs, (slot, slots) => do
    let v ← match slot.or f.absent with
      | some v => .ok v
      | none => .error (.missingField f.name)
    let rest ← row fs slots
    .ok (v, rest)

end Slots

namespace Row

/-- Reads the fields from a list of `given` items and more, each field from the item at its
place. -/
def ofItems (record : String) (size : Nat) (stop : Option Fault) :
    Nat → (fs : List Field) → List Draft → Except Problem (Row fs)
  | _, [], [] => (raise stop).map fun _ => ()
  | given, [], d :: ds => .error (.tooLong (given + (d :: ds).length))
  | given, f :: fs, [] => do
    raise stop
    let v ← match f.absent with
      | some v => .ok v
      | none => .error (.tooShort given record size)
    let rest ← ofItems record size stop given fs []
    .ok (v, rest)
  | given, f :: fs, d :: ds => do
    let v ← f.codec.read d
    let rest ← ofItems record size stop (given + 1) fs ds
    .ok (v, rest)

/-- The members that a row is written as. -/
def members : (fs : List Field) → Row fs → List (String × Json)
  | [], _ => []
  | f :: fs, (v, rest) =>
    if f.hidden v then members fs rest else (f.name, f.codec.write v) :: members fs rest

end Row

/-- The codec of a record. Missing fields are found at the end of an object. -/
def Codec.record (name : String) (fs : List Field) : Codec (Row fs) where
  read
    | .object members stop => do
      let slots ← Slots.fillAll fs members (Slots.empty fs)
      raise stop
      slots.row fs
    | .array items stop => Row.ofItems name fs.length stop 0 fs items
    | d => .error (d.mismatch ("struct " ++ name))
  write row := .object (row.members fs)

end Ferry.Json
