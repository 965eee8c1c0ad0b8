/-!
Tokens by which work is called off. A token made from another one is called off together with it,
and nothing is ever called off again once it is.
-/
namespace Ferry.Transfer

/-- A token, by the numbers of itself and of the tokens that it was made from, itself first. -/
structure Token where
  lineage : List Nat
deriving DecidableEq, Repr

/-- The tokens made so far: the next free number, and the ones that were called off. -/
structure Tokens where
  next : Nat
  calledOff : List Token
deriving DecidableEq, Repr

namespace Tokens

/-- No tokens. -/
def empty : Tokens := ⟨0, []⟩

/-- A token of its own. -/
def make (ts : Tokens) : Token × Tokens := (⟨[ts.next]⟩, { ts with next := ts.next + 1 })

/-- A token made from another one. -/
def makeFrom (ts : Tokens) (t : Token) : Token × Tokens :=
  (⟨ts.next :: t.lineage⟩, { ts with next := ts.next + 1 })

/-- Calls off a token, and with it all that were and will be made from it. -/
def cancel (ts : Tokens) (t : Token) : Tokens := { ts with calledOff := t :: ts.calledOff }

/-- Whether a token, or one that it was made from, was called off. -/
def isCancelled (ts : Tokens) (t : Token) : Bool :=
  ts.calledOff.any fun c => c.lineage.isSuffixOf t.lineage

theorem isCancelled_cancel (ts : Tokens) (c t : Token) :
    (ts.cancel c).isCancelled t = (c.lineage.isSuffixOf t.lineage || ts.isCancelled t) := rfl

end Tokens
end Ferry.Transfer
