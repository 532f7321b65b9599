import DeclBundle.Compiler.Listing
import DeclBundle.Compiler.Program
import DeclBundle.Compiler.Request
set_option autoImplicit false

/-!
# Running the compiler

The compiler is started with a directory of its own for the declarations.  Its listing says which
files it has read; the declaration of a file is the one that lies in that directory, or the file
itself if it was a declaration from the start.  The directory is gone afterwards, whatever happens.
-/

namespace DeclBundle

/-- A compiler that is started as a program. -/
structure CommandCompiler where
  executable : String := "tsc"
  runner : Runner

/-- A path without the suffix of a source file. -/
def withoutSourceSuffix (path : String) : String :=
  if Text.finishesWith path ".tsx" then ModuleId.withoutSuffix path ".tsx"
  else ModuleId.withoutSuffix path ".ts"

/-- The text of a file, with a line feed for every line end. -/
def readText (files : Files.FileTree) (place : Files.Place) (path : String) :
    Except Fault String := do
  let bytes ← (files.read place path).mapError .files
  let text ← (Utf8.decode bytes).mapError .undecodable
  return .ofList (Text.unifyNewlines text)

namespace CommandCompiler

/-! ## The directory of the declarations -/

/-- The way to a directory for temporary use that is not there yet. -/
def freshWay (place : Files.Place) (files : Files.FileTree) : Files.Way :=
  let way (n : Nat) : Files.Way := place.temporary ++ ["dtsbundle-" ++ toString n]
  let isFree (n : Nat) : Bool := !files.entries.any fun e => (way n).isPrefixOf e.1
  way (((List.range (files.entries.length + 1)).find? isFree).getD files.entries.length)

/-- The path to the end of a way. -/
def pathOf (way : Files.Way) : String :=
  "/" ++ Path.ofSegments way

/-! ## Collecting declarations -/

/-- The path of the declaration of a source file below the base directory, as seen from the
directory that declarations are written to. -/
def emittedName (place : Files.Place) (request : Request) (file : String) : String :=
  withoutSourceSuffix (Path.relative place.workingDirectory file request.base) ++
    ModuleId.declarationSuffix

/-- The declaration that a source file below the base directory has got in the directory of the
declarations. -/
def emitted (place : Files.Place) (files : Files.FileTree) (request : Request)
    (emitDirectory file : String) (diagnostics : List Diagnostic) :
    Except Fault CompiledFile := do
  let name := emittedName place request file
  let path := ((Location.ofPath emitDirectory).child name).path
  match ← (files.probe place path).mapError .files with
  | none => return { fileName := file, diagnostics, emitSkipped := true }
  | some _ =>
    let text ← readText files place path
    return {
      fileName := file
      declaration := some { fileName := Path.join request.declarationDirectory name, text }
      diagnostics }

/-- What has become of a file that has been read. -/
def collect (place : Files.Place) (files : Files.FileTree) (request : Request)
    (emitDirectory : String) (listing : Listing) (file : String) : Except Fault CompiledFile := do
  let diagnostics := listing.diagnosticsOf file
  if !Path.isUnder file request.base then return { fileName := file, diagnostics }
  else if Text.finishesWith file ModuleId.declarationSuffix then
    let text ← readText files place (Location.ofPath file).path
    return {
      fileName := file
      declaration := some { fileName := file, text, isPreDeclared := true }
      diagnostics }
  else emitted place files request emitDirectory file diagnostics

/-- What a listing means, with the declarations that the compiler has left. -/
def compilation (place : Files.Place) (files : Files.FileTree) (request : Request)
    (emitDirectory output : String) : Except Fault Compilation := do
  let listing := Listing.parse request.base output
  return {
    files := ← listing.files.mapM (collect place files request emitDirectory listing)
    diagnostics := listing.globalDiagnostics }

/-! ## The run -/

/-- The invocation that a request asks for. -/
def invocation (c : CommandCompiler) (request : Request) (emitDirectory : String) : Invocation where
  arguments := request.arguments c.executable emitDirectory
  directory := (Location.ofPath request.base).path

/-- Answers a request. -/
def compile (c : CommandCompiler) : Compiler := fun request system =>
  let way := freshWay system.place system.files
  let invocation := c.invocation request (pathOf way)
  let system :=
    { system with files := system.files.put way .directory }.logged Level.debug "compiler"
      ("Running " ++ " ".intercalate invocation.arguments)
  let (output, files) := c.runner invocation system.files
  let answer := do compilation system.place files request (pathOf way) (← output)
  let system :=
    { system with
      files := files.remove way
      invocations := system.invocations ++ [invocation] }
  match answer with
  | .ok compilation => .ok compilation system
  | .error fault => .error fault system

end CommandCompiler

end DeclBundle
