import DeclBundle.Text.Quoted
set_option autoImplicit false

/-!
# Faults of the file system

Why an operation on files fails, with the number and the words that a system has for it.
-/

namespace DeclBundle.Files

/-- Why an operation fails. -/
inductive Reason where
  | notFound
  | inputOutput
  | permissionDenied
  | exists
  | notDirectory
  | isDirectory
  | noSpace
  | nameTooLong
  deriving DecidableEq, Repr

/-- The number of a reason. -/
def Reason.number : Reason → Nat
  | .notFound => 2
  | .inputOutput => 5
  | .permissionDenied => 13
  | .exists => 17
  | .notDirectory => 20
  | .isDirectory => 21
  | .noSpace => 28
  | .nameTooLong => 36

/-- The words for a reason. -/
def Reason.words : Reason → String
  | .notFound => "No such file or directory"
  | .inputOutput => "Input/output error"
  | .permissionDenied => "Permission denied"
  | .exists => "File exists"
  | .notDirectory => "Not a directory"
  | .isDirectory => "Is a directory"
  | .noSpace => "No space left on device"
  | .nameTooLong => "File name too long"

/-- A failed operation, with the path that it was given, if it was given one. -/
structure Fault where
  reason : Reason
  path : Option String := none
  deriving DecidableEq, Repr

/-- The words for a failed operation. -/
def Fault.message (f : Fault) : String :=
  let words := "[Errno " ++ toString f.reason.number ++ "] " ++ f.reason.words
  match f.path with
  | none => words
  | some p => words ++ ": " ++ Text.quoted p

end DeclBundle.Files
