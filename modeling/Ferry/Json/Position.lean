import Ferry.Text.Cut
import Ferry.Text.Numeral

/-!
Positions at the end of messages, by line and column. They say where in a text the problem is and
are no part of its words, so messages are told without one. What is dropped is a position or
nothing.
-/
namespace Ferry.Json

open Ferry.Text

/-- Whether a text is a position: a line and a column, each a 64-bit count in digits alone. -/
def isPosition (s : List Char) : Bool :=
  Option.isSome do
    let line ← afterLead? " at line ".toList s
    let _ ← readWord? (line.takeWhile isDigit)
    let column ← afterLead? " column ".toList (line.dropWhile isDigit)
    readWord? column

/-- A text without the position at its end. -/
def dropPosition : List Char → List Char
  | [] => []
  | c :: cs => if isPosition (c :: cs) then [] else c :: dropPosition cs

end Ferry.Json
