import DeclBundle.Compilation
import DeclBundle.Path.Basic
import DeclBundle.Text.Digit
set_option autoImplicit false

/-!
# Listings of the compiler

The compiler prints the files that it has read and its diagnostics, one a line.  A line with a blank
in front goes on with the message of the diagnostic before it.
-/

namespace DeclBundle

open Text

/-- What a listing says. -/
structure Listing where
  /-- the files that have been read, in order -/
  files : List String := []
  diagnostics : List Diagnostic := []
  deriving DecidableEq, Repr

namespace Listing

/-! ## Lines of diagnostics -/

/-- A number at the beginning of a text, and what follows a mark behind it. -/
def number? (mark : String) (cs : List Char) : Option (Nat × List Char) :=
  let digits := cs.takeWhile isDigit
  if digits.isEmpty then none
  else (afterStart? mark.toList (cs.drop digits.length)).map fun rest => (digitsValue digits, rest)

/-- A problem that makes up a text: its code and its message. -/
def problem? (cs : List Char) : Option (Nat × String) := do
  let (code, message) ← number? ": " (← afterStart? "error TS".toList cs)
  return (code, .ofList message)

/-- Line and column in brackets and the problem that is there. -/
def position? (cs : List Char) : Option (Nat × Nat × Nat × String) := do
  let (line, cs) ← number? "," (← afterStart? "(".toList cs)
  let (column, cs) ← number? "): " cs
  return (line, column, ← problem? cs)

/-- A file, the position in it and the problem that is there.  The name of the file is as short as
it can be. -/
def located? (name : List Char) : List Char → Option (String × Nat × Nat × Nat × String)
  | [] => none
  | c :: cs =>
    match position? cs with
    | some p => some (.ofList (name ++ [c]), p)
    | none => located? (name ++ [c]) cs

/-- The diagnostic that a line shows.  Files are seen from a base directory. -/
def diagnostic? (base : String) (line : List Char) : Option Diagnostic :=
  match located? [] line with
  | some (file, row, column, code, message) =>
    some {
      fileName := Path.normalize (Path.join base file)
      line := row
      column := column
      code := code
      message := message
      category := (Category.ofCode code).name }
  | none =>
    (problem? line).map fun (code, message) => {
      fileName := ""
      line := 0
      column := 0
      code := code
      message := message
      category := (Category.ofCode code).name }

/-! ## The whole listing -/

/-- Puts a line behind the message of the last diagnostic, if there is one. -/
def continueLast? (line : String) : List Diagnostic → Option (List Diagnostic)
  | [] => none
  | [d] => some [{ d with message := d.message ++ "\n" ++ line }]
  | d :: ds => (continueLast? line ds).map (d :: ·)

/-- What a listing says with one more line. -/
def addLine (base : String) (l : Listing) (line : List Char) : Listing :=
  let text := trimBlank (.ofList line)
  if text = "" then l
  else
    match diagnostic? base line with
    | some d => { l with diagnostics := l.diagnostics ++ [d] }
    | none =>
      match if line.head?.any isBlank then continueLast? text l.diagnostics else none with
      | some ds => { l with diagnostics := ds }
      | none => { l with files := l.files ++ [Path.normalize text] }

/-- What a listing says.  Files of diagnostics are seen from a base directory. -/
def parse (base output : String) : Listing :=
  (listingLines output.toList).foldl (addLine base) {}

/-- The diagnostics that belong to a file. -/
def diagnosticsOf (l : Listing) (file : String) : List Diagnostic :=
  l.diagnostics.filter fun d => d.fileName != "" && Path.normalize d.fileName == file

/-- The diagnostics that belong to no file. -/
def globalDiagnostics (l : Listing) : List Diagnostic :=
  l.diagnostics.filter (·.fileName == "")

end Listing

end DeclBundle
