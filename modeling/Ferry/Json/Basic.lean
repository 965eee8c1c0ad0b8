import Ferry.Numeric.Double
import Ferry.NameMap

/-!
JSON values, and what can be read of a text that may not be one. A draft is a value in which
reading may have stopped: a leaf keeps why it cannot be used, a list or an object why it has no
end. Drafts are walked in the order of the text, so the first fault met is the first in the text.
-/
namespace Ferry

open Numeric

namespace Json

/-- Why a text is not JSON: it breaks the grammar, or it ends inside a value. -/
inductive Fault
  | malformed
  | truncated
deriving DecidableEq, Repr

/-- A number: whole, from `-2 ^ 63` below `2 ^ 64`, or any other one as a double. -/
inductive Number
  | integer (n : Int)
  | real (x : Double)
deriving DecidableEq, Repr

end Json

/-- A JSON value. Members keep their order. -/
inductive Json
  | null
  | boolean (b : Bool)
  | number (n : Json.Number)
  | string (s : String)
  | array (items : List Json)
  | object (members : List (String × Json))
deriving Repr

namespace Json

/-- A value as far as it can be read. A number or a text may be well formed and still not usable:
it then holds the fault that whoever asks for it gets, and is passed over by whoever does not. -/
inductive Draft
  | null
  | boolean (b : Bool)
  | number (n : Except Fault Number)
  | string (s : Except Fault String)
  | array (items : List Draft) (stop : Option Fault)
  | object (members : List (Except Fault String × Draft)) (stop : Option Fault)
  | broken (fault : Fault)

namespace Draft

mutual
/-- The first place where the grammar breaks, whatever the leaves hold. -/
def gap : Draft → Option Fault
  | .array items stop => (gapItems items).or stop
  | .object members stop => (gapMembers members).or stop
  | .broken fault => some fault
  | _ => none

/-- The first gap in a list. -/
def gapItems : List Draft → Option Fault
  | [] => none
  | d :: ds => (gap d).or (gapItems ds)

/-- The first gap in the members of an object. -/
def gapMembers : List (Except Fault String × Draft) → Option Fault
  | [] => none
  | (_, d) :: ms => (gap d).or (gapMembers ms)
end

/-- The fault of a leaf that cannot be used. -/
def faultOf {α : Type} : Except Fault α → Option Fault
  | .ok _ => none
  | .error fault => some fault

mutual
/-- The first fault that keeps the whole value from being used, with at most `depth` lists and
objects inside each other; one more counts as malformed. -/
def flaw (depth : Nat) : Draft → Option Fault
  | .null => none
  | .boolean _ => none
  | .number n => faultOf n
  | .string s => faultOf s
  | .array items stop =>
    match depth with
    | 0 => some .malformed
    | depth + 1 => (flawItems depth items).or stop
  | .object members stop =>
    match depth with
    | 0 => some .malformed
    | depth + 1 => (flawMembers depth members).or stop
  | .broken fault => some fault

/-- The first flaw in a list. -/
def flawItems (depth : Nat) : List Draft → Option Fault
  | [] => none
  | d :: ds => (flaw depth d).or (flawItems depth ds)

/-- The first flaw in the names and values of an object. -/
def flawMembers (depth : Nat) : List (Except Fault String × Draft) → Option Fault
  | [] => none
  | (name, d) :: ms => ((faultOf name).or (flaw depth d)).or (flawMembers depth ms)
end

end Draft

mutual
/-- A value as a draft without faults. -/
def draft : Json → Draft
  | .null => .null
  | .boolean b => .boolean b
  | .number n => .number (.ok n)
  | .string s => .string (.ok s)
  | .array items => .array (draftItems items) none
  | .object members => .object (draftMembers members) none

/-- The items of a list as drafts. -/
def draftItems : List Json → List Draft
  | [] => []
  | v :: vs => draft v :: draftItems vs

/-- The members of an object as drafts. -/
def draftMembers : List (String × Json) → List (Except Fault String × Draft)
  | [] => []
  | (name, v) :: ms => (.ok name, draft v) :: draftMembers ms
end

/-- Members in ascending order of names; of several with one name the last stays. -/
def sortMembers (ms : List (String × Json)) : List (String × Json) :=
  ms.foldl (fun sorted (name, v) => insertNamed name v sorted) []

mutual
/-- The value with the members of every object in ascending order, each name once. -/
def canonical : Json → Json
  | .array items => .array (canonicalItems items)
  | .object members => .object (sortMembers (canonicalMembers members))
  | v => v

/-- The canonical items of a list. -/
def canonicalItems : List Json → List Json
  | [] => []
  | v :: vs => canonical v :: canonicalItems vs

/-- The members of an object with canonical values, in their order. -/
def canonicalMembers : List (String × Json) → List (String × Json)
  | [] => []
  | (name, v) :: ms => (name, canonical v) :: canonicalMembers ms
end

mutual
/-- The value of a draft without flaws. -/
def Draft.value? : Draft → Option Json
  | .null => some .null
  | .boolean b => some (.boolean b)
  | .number n => n.toOption.map .number
  | .string s => s.toOption.map .string
  | .array items none => (Draft.values? items).map .array
  | .object members none => (Draft.memberValues? members).map .object
  | _ => none

/-- The values of a list of drafts. -/
def Draft.values? : List Draft → Option (List Json)
  | [] => some []
  | d :: ds => do
    let v ← Draft.value? d
    let vs ← Draft.values? ds
    some (v :: vs)

/-- The members of an object of drafts. -/
def Draft.memberValues? : List (Except Fault String × Draft) → Option (List (String × Json))
  | [] => some []
  | (name, d) :: ms => do
    let name ← name.toOption
    let v ← Draft.value? d
    let vs ← Draft.memberValues? ms
    some ((name, v) :: vs)
end

mutual
/-- A value is the value of its draft, and so for lists and members. -/
theorem value?_draft : ∀ v : Json, v.draft.value? = some v
  | .null | .boolean _ | .number _ | .string _ => rfl
  | .array items => by simp [draft, Draft.value?, values?_draft items]
  | .object members => by simp [draft, Draft.value?, memberValues?_draft members]

theorem values?_draft : ∀ vs : List Json, Draft.values? (draftItems vs) = some vs
  | [] => rfl
  | v :: vs => by simp [draftItems, Draft.values?, value?_draft v, values?_draft vs]

theorem memberValues?_draft :
    ∀ ms : List (String × Json), Draft.memberValues? (draftMembers ms) = some ms
  | [] => rfl
  | (_, v) :: ms => by
    simp [draftMembers, Draft.memberValues?, Except.toOption, value?_draft v,
      memberValues?_draft ms]
end

end Json
end Ferry
