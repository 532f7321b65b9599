import DeclBundle.Path.Basic
import DeclBundle.System
set_option autoImplicit false

/-!
# What the compiler is asked for

A request names the files to compile and the settings that matter for their declarations.  The
command line that stands for a request asks for declarations only, in a directory of its own.
-/

namespace DeclBundle

/-- Settings of the compiler. -/
structure CompilerSettings where
  base : String
  target : String := "esnext"
  /-- where declarations are said to be written, which decides the identifiers of their modules -/
  outDir : Option String := none
  moduleResolution : Option String := none
  deriving DecidableEq, Repr

/-- The files to compile, and how. -/
structure Request where
  files : List String
  settings : CompilerSettings
  deriving DecidableEq, Repr

/-- A compiler answers requests. -/
abbrev Compiler := Request → Action Compilation

/-- The text of a setting, unless it is empty. -/
def nonempty? (s : Option String) : Option String :=
  s.filter (· != "")

namespace Request

/-- The base directory in canonical form. -/
def base (r : Request) : String :=
  Path.normalize r.settings.base

/-- The directory where declarations are said to be written. -/
def declarationDirectory (r : Request) : String :=
  match nonempty? r.settings.outDir with
  | some d => Path.normalize (Path.join r.base d)
  | none => r.base

/-- The arguments that ask a compiler to put the declarations into a directory. -/
def arguments (r : Request) (executable emitDirectory : String) : List String :=
  [executable, "--declaration", "--emitDeclarationOnly", "--pretty", "false", "--listFiles",
    "--module", "commonjs", "--target", r.settings.target, "--rootDir", r.base, "--outDir",
    emitDirectory] ++
  (match nonempty? r.settings.moduleResolution with
    | some m => ["--moduleResolution", m]
    | none => []) ++
  r.files

end Request

end DeclBundle
