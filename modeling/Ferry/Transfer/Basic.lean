import Ferry.Files.Path
import Ferry.NameMap
import Ferry.Store.Object
import Ferry.Transfer.Token

/-! A transfer: one file, object or copy on its way, with what is known about it so far. -/
namespace Ferry

open Files Store

/-- A transfer. -/
structure Transfer where
  /-- The local file that is read or written. -/
  localFile : Option Path
  bucket : String
  key : String
  /-- What a copy is made from. -/
  source : Option CopySource
  /-- The parameters of its requests. -/
  params : NameMap String
  size : Option Nat
  /-- The failure recorded last, in words. -/
  recorded : Option String
  token : Transfer.Token
  /-- Whether it was announced as queued. -/
  queued : Bool
  /-- Whether it was announced as done. -/
  done : Bool

namespace Transfer

/-- How a transfer failed. -/
inductive Failure
  | recorded (reason : String)
  | cancelled
deriving DecidableEq, Repr

def Failure.message : Failure → String
  | .recorded reason => reason
  | .cancelled => "transfer was cancelled"

/-- A transfer as it is submitted: nothing is known of it, and nothing was announced. -/
def submitted (localFile : Option Path) (bucket key : String) (source : Option CopySource)
    (params : NameMap String) (token : Token) : Transfer :=
  { localFile, bucket, key, source, params, size := none, recorded := none, token,
    queued := false, done := false }

/-- Sets a parameter. -/
def setParam (t : Transfer) (name value : String) : Transfer :=
  { t with params := t.params.insert name value }

/-- Sets the size, whatever was known before. -/
def setSize (t : Transfer) (size : Nat) : Transfer := { t with size := some size }

/-- Records a failure in place of one recorded before. -/
def fail (t : Transfer) (reason : String) : Transfer := { t with recorded := some reason }

/-- Whether the transfer was called off. -/
def isCancelled (t : Transfer) (ts : Tokens) : Bool := ts.isCancelled t.token

/-- The failure of a transfer: the recorded one, or else that it was called off. -/
def failure? (t : Transfer) (ts : Tokens) : Option Failure :=
  match t.recorded with
  | some reason => some (.recorded reason)
  | none => if t.isCancelled ts then some .cancelled else none

end Transfer
end Ferry
