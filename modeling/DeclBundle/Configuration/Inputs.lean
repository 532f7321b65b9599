import DeclBundle.Configuration.Project
import DeclBundle.Files.Glob
set_option autoImplicit false

/-!
# The files of a project

The files that a project lists come first, as they are listed.  Behind them come the files that its
patterns find and that it does not exclude.  A project that says nothing has all files beneath its
directory, save packages and its own output.
-/

namespace DeclBundle.Configuration

open Text Data

/-- Whether a pattern excludes a path: as the path itself, as a directory above it, or as a pattern
that fits either. -/
def isExcluded (path pattern : String) : Bool :=
  let pattern := String.ofList (stripEnd (· == '/') pattern.toList)
  path == pattern || beginsWith path (pattern ++ "/") || Files.matchesPattern pattern path ||
    Files.matchesPattern (pattern ++ "/*") path

/-- The directories of packages, which a project excludes unless it says what it excludes. -/
def packageDirectories : List String :=
  ["node_modules", "bower_components", "jspm_packages"]

/-- Whether a path has the suffix of a source file. -/
def isSource (path : String) : Bool :=
  finishesWith path ".ts" || finishesWith path ".tsx"

/-- The pattern for everything beneath a directory. -/
def everythingIn (directory : String) : String :=
  Path.join (Path.join directory "**") "*"

/-- The list without repetitions, where the first of equal elements stays. -/
def withoutRepetitions (xs : List String) : List String :=
  xs.foldl (fun seen x => if seen.contains x then seen else seen ++ [x]) []

namespace Merged

/-- The patterns of the files that belong to the project. -/
def includePatterns (m : Merged) (directory : Location) : List String :=
  match m.includes with
  | some patterns => patterns
  | none => if (m.files.getD []).isEmpty then [everythingIn directory.path] else []

/-- The patterns of the files that do not belong to the project. -/
def excludePatterns (m : Merged) (directory : Location) (outDir : Option String) : List String :=
  match m.excludes with
  | some patterns => patterns
  | none =>
    packageDirectories.map (Path.join directory.path) ++ (outDir.filter (· != "")).toList

/-- The paths that an include pattern finds, in order.  A directory stands for all beneath it. -/
def found (files : Files.FileTree) (place : Files.Place) (pattern : String) : List String :=
  let pattern :=
    if !Files.isPattern pattern && files.isDirectory place pattern then everythingIn pattern
    else pattern
  (Files.Globe.expand ⟨files, place, ""⟩ pattern).mergeSort fun a b => !decide (b < a)

/-- The files of the project. -/
def inputs (m : Merged) (files : Files.FileTree) (place : Files.Place) (directory : Location)
    (outDir : Option String) : List String :=
  let excluded := m.excludePatterns directory outDir
  let others := (m.includePatterns directory).flatMap fun pattern =>
    (found files place pattern).filter fun path =>
      isSource path && !excluded.any (isExcluded path)
  withoutRepetitions (((m.files.getD []) ++ others).map fun p => (Files.resolve place p).path)

end Merged

/-! ## Whole projects -/

/-- What a project file asks for. -/
structure Project where
  file : Location
  inputs : List String := []
  target : Option String := none
  outDir : Option String := none
  moduleResolution : Option String := none
  deriving DecidableEq, Repr

/-- Reads a project file. -/
def Project.load (files : Files.FileTree) (place : Files.Place) (l : Location) :
    Except DeclBundle.Fault Project := do
  let file := Files.resolve place l.path
  let merged ← Merged.read files place file
  let text := Value.memberText? merged.compilerOptions
  return {
    file
    inputs := merged.inputs files place file.parent (text "outDir")
    target := text "target"
    outDir := text "outDir"
    moduleResolution := text "moduleResolution" }

end DeclBundle.Configuration
