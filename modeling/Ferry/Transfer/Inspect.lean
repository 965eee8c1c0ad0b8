import Ferry.Text.Quoted
import Ferry.Transfer.Observer

/-! How transfers and sets of observers are shown to programmers. -/
namespace Ferry.Transfer

open Ferry.Text Ferry.Store

/-- Parts with a comma between them. -/
def listed (parts : List String) : String := ", ".intercalate parts

/-- A record by its name and fields. -/
def shownRecord (name : String) (fields : List (String × String)) : String :=
  name ++ " \x7b " ++ listed (fields.map fun (field, text) => field ++ ": " ++ text) ++ " \x7d"

/-- A value that may be absent. -/
def shownOption {α : Type} (write : α → String) : Option α → String
  | some a => "Some(" ++ write a ++ ")"
  | none => "None"

def inspectSource (s : CopySource) : String :=
  shownRecord "CopySource"
    [("bucket", quoted s.bucket), ("key", quoted s.key),
      ("version_id", shownOption quoted s.version)]

/-- The arguments of a transfer. -/
def inspectArguments (t : Transfer) : String :=
  shownRecord "CallArgs"
    [("fileobj", shownOption (fun p => quotedBytes p.bytes) t.localFile),
      ("bucket", quoted t.bucket), ("key", quoted t.key),
      ("copy_source", shownOption inspectSource t.source),
      ("extra_args", "\x7b"
        ++ listed (t.params.entries.map fun (name, value) => quoted name ++ ": " ++ quoted value)
        ++ "\x7d")]

/-- A transfer. -/
def inspect (t : Transfer) (ts : Tokens) : String :=
  shownRecord "TransferFuture"
    [("call_args", t.inspectArguments), ("size", shownOption toString t.size),
      ("failed", toString t.recorded.isSome), ("cancelled", toString (t.isCancelled ts))]

/-- An observer, by the hooks it has. -/
def Observer.inspect {ω : Type} (o : Observer ω) : String :=
  shownRecord "Subscriber"
    [("on_queued", toString o.onQueued.isSome), ("on_done", toString o.onDone.isSome)]

/-- A set of observers. -/
def inspectObservers {ω : Type} (observers : List (Observer ω)) : String :=
  shownRecord "SubscriberSet"
    [("subscribers", "[" ++ listed (observers.map Observer.inspect) ++ "]")]

end Ferry.Transfer
