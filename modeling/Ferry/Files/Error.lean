/-!
What can go wrong with files and streams, in the words of the operating system where it is the one
that refuses.
-/
namespace Ferry.Files

/-- A failed operation on a file or a stream. -/
inductive IoError
  | notFound
  | permissionDenied
  /-- Something that only the owner may do. -/
  | notPermitted
  | alreadyExists
  | notADirectory
  | isADirectory
  | invalidArgument
  | nameTooLong
  | linkLoop
  /-- A path holds a zero byte. -/
  | zeroInPath
  /-- A text file holds something that is no text. -/
  | notText
  /-- A stream takes no more. -/
  | noRoom
  /-- An argument refused before the operating system sees it. -/
  | refused (reason : String)
  /-- Any other failure of a stream. -/
  | other (reason : String)
deriving DecidableEq, Repr

/-- The words of the operating system for one of its numbered errors. -/
def osText (text : String) (number : Nat) : String :=
  text ++ " (os error " ++ toString number ++ ")"

def IoError.message : IoError → String
  | .notFound => osText "No such file or directory" 2
  | .permissionDenied => osText "Permission denied" 13
  | .notPermitted => osText "Operation not permitted" 1
  | .alreadyExists => osText "File exists" 17
  | .notADirectory => osText "Not a directory" 20
  | .isADirectory => osText "Is a directory" 21
  | .invalidArgument => osText "Invalid argument" 22
  | .nameTooLong => osText "File name too long" 36
  | .linkLoop => osText "Too many levels of symbolic links" 40
  | .zeroInPath => "file name contained an unexpected NUL byte"
  | .notText => "stream did not contain valid UTF-8"
  | .noRoom => "failed to write whole buffer"
  | .refused reason => reason
  | .other reason => reason

/-- Whether the operating system refused because the user may not do it. -/
def IoError.isPermission : IoError → Bool
  | .permissionDenied | .notPermitted => true
  | _ => false

/-- The message of an error that is passed on by an operation of this library. -/
def IoError.passedOn (e : IoError) : String := "I/O error: " ++ e.message

end Ferry.Files
