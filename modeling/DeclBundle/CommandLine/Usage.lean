import DeclBundle.CommandLine.Flag
import DeclBundle.Path.Basic
set_option autoImplicit false

/-!
# Usage and help

The text that shows how the program is called, and the one that explains its flags, for a console
of eighty columns.
-/

namespace DeclBundle.CommandLine

/-- The name of the program. -/
def programName : String := "dtsbundle"

/-- The columns of a line that are used. -/
def lineWidth : Nat := 78

/-- Puts words on lines, as many as fit a width on each. -/
def fill (width : Nat) : List String → List String
  | [] => []
  | w :: ws =>
    let step (lines : List String × String) (w : String) : List String × String :=
      if lines.2.length + 1 + w.length ≤ width then (lines.1, lines.2 ++ " " ++ w)
      else (lines.1 ++ [lines.2], w)
    let (lines, last) := ws.foldl step ([], w)
    lines ++ [last]

/-- The words of a text. -/
def words (s : String) : List String :=
  (Text.splitAtChar ' ' s.toList).map .ofList

/-- A number of spaces. -/
def spaces (n : Nat) : String :=
  .ofList (List.replicate n ' ')

/-! ## Usage -/

/-- How a flag is shown in the usage. -/
def usageItem (f : Flag) : String :=
  let spelling := f.spellings.headD ""
  match f.placeholder? with
  | some p => "[" ++ spelling ++ " " ++ p ++ "]"
  | none => "[" ++ spelling ++ "]"

/-- How the program is called. -/
def usage : String :=
  let start := "usage: " ++ programName ++ " "
  let lines := fill (lineWidth - start.length) (Flag.all.map usageItem) ++ ["[files ...]"]
  start ++ ("\n" ++ spaces start.length).intercalate lines ++ "\n"

/-! ## Help -/

/-- The column where explanations begin. -/
def explanationColumn : Nat := 23

/-- One line of the help, or more if the explanation is long. -/
def helpItem (item explanation : String) : String :=
  let lines := fill (lineWidth - explanationColumn) (words explanation)
  "  " ++ item ++ spaces (explanationColumn - 2 - item.length) ++
    ("\n" ++ spaces explanationColumn).intercalate lines ++ "\n"

/-- How a flag is shown in the help. -/
def helpName (f : Flag) : String :=
  ", ".intercalate (f.spellings.map fun s =>
    match f.placeholder? with
    | some p => s ++ " " ++ p
    | none => s)

/-- What the program is for, and what its arguments mean. -/
def help : String :=
  usage ++
    "\nBundle TypeScript declaration files into a single module declaration file.\n" ++
    "\npositional arguments:\n" ++ helpItem "files" "Source files to compile and bundle." ++
    "\noptions:\n" ++
    "".intercalate (Flag.all.map fun f => helpItem (helpName f) f.purpose)

end DeclBundle.CommandLine
