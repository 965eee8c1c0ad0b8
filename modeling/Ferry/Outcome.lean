import Ferry.Json.Record

/-! What is reported to the user about a piece of work that has ended. -/
namespace Ferry

open Ferry.Json

/-- A report. Warnings never end the work that they are about. -/
structure Outcome where
  message : String
  isError : Bool
  isWarning : Bool
deriving DecidableEq, Repr

namespace Outcome

def warning (message : String) : Outcome := ⟨message, false, true⟩

def error (message : String) : Outcome := ⟨message, true, false⟩

/-- The warning about a path, which also says so where the file was skipped. -/
def warningAbout (path message : String) (skipped : Bool) : Outcome :=
  .warning ("warning: " ++ (if skipped then "Skipping file " ++ path ++ ". " else "") ++ message)

def codec : Codec Outcome :=
  (Codec.record "TransferResult"
    [.required "message" .text, .required "error" .flag, .required "warning" .flag]).iso
    (fun (message, isError, isWarning, ()) => ⟨message, isError, isWarning⟩)
    fun o => (o.message, o.isError, o.isWarning, ())

end Outcome
end Ferry
