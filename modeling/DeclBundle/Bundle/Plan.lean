import DeclBundle.Compiler.Request
import DeclBundle.Configuration.Inputs
import DeclBundle.Configuration.Options
set_option autoImplicit false

/-!
# The plan of a run

What the options mean where they are used: which files are compiled and how, which files stay out
of the bundle, and how its blocks are made.  Planning reads files and logs what it finds; it changes
no file.
-/

namespace DeclBundle.Bundle

open DeclBundle.Configuration (Options)

/-- The part of the program that the messages of a run come from. -/
def logPart : String := "bundler"

/-- Logs a detail. -/
def logDetail (message : String) : Action Unit :=
  Action.log Level.debug logPart message

/-- Logs progress. -/
def logProgress (message : String) : Action Unit :=
  Action.log Level.info logPart message

/-- A text between double quotes. -/
def inQuotes (s : String) : String :=
  "\"" ++ s ++ "\""

/-! ## Options of a project -/

/-- The options with what a project asks for. -/
def withProjectOptions (o : Options) (p : Configuration.Project) : Options :=
  { o with
    target := p.target
    outDir := (nonempty? p.outDir).or o.outDir
    moduleResolution := (nonempty? p.moduleResolution).or o.moduleResolution
    files := p.inputs }

/-- The options with what the project asks for, where a project is given or no files are. -/
def withProject (o : Options) : Action Options := do
  if o.project.isNone && !o.files.isEmpty then return o
  else
    let s ← get
    let directory := (o.project.or o.baseDir).getD (.ofPath s.place.workingDirectory)
    logDetail ("project = " ++ inQuotes directory.path)
    let file := directory.child Configuration.projectFileName
    match ← Action.ofFiles (s.files.probe s.place file.path) with
    | none =>
      logProgress ("No " ++ inQuotes Configuration.projectFileName ++ " found at " ++
        inQuotes file.path ++ "!")
      throw (.configuration .noProject)
    | some _ =>
      logDetail ("  parsing " ++ inQuotes file.path)
      match Configuration.Project.load s.files s.place file with
      | .error fault => throw fault
      | .ok p => return withProjectOptions o p

/-! ## Files -/

/-- The absolute path of an input file.  A name that does not lead below the base directory from
the working directory is seen from the base directory. -/
def resolveInput (workingDirectory base file : String) : String :=
  let path := Path.absolute workingDirectory file
  if Text.beginsWith path base then path else Path.normalize (Path.join base file)

/-- The absolute paths of input files, in order. -/
def resolveInputs (workingDirectory base : String) (files : List String) : List String :=
  files.map (resolveInput workingDirectory base)

/-- The canonical paths of the files that patterns find, as seen from a base directory. -/
def expandExcludes (files : Files.FileTree) (place : Files.Place) (base : String)
    (patterns : List String) : List String :=
  patterns.flatMap fun pattern =>
    (Files.Globe.expand ⟨files, place, base⟩ pattern).map fun path =>
      Path.withSlashes (Path.normalize (Path.join base path))

/-- The patterns of files that stay out of a bundle, unless others are given. -/
def defaultExcludes : List String := ["node_modules/**/*.d.ts"]

/-! ## Plans -/

/-- What a run does. -/
structure Plan where
  /-- what the compiler is asked for -/
  request : Request
  /-- how blocks are made -/
  assembly : Assembly

/-- The base directory of a run: the project, or the base directory that is given, or the working
directory. -/
def baseDirectory (workingDirectory : String) (o : Options) : String :=
  match o.project.or o.baseDir with
  | some l => Path.absolute workingDirectory l.path
  | none => Path.absolute workingDirectory workingDirectory

/-- The directory of the declarations, which has to lie under the base directory. -/
def outputDirectory? (base : String) (o : Options) : Action (Option String) :=
  match nonempty? o.outDir with
  | none => return none
  | some d => do
    let directory := Path.normalize (Path.join base d)
    logDetail ("outDir = " ++ directory)
    if Path.isUnder directory base then return some directory
    else throw (.configuration (.outputOutside directory base))

/-- Logs a list under a heading. -/
def logList (heading : String) (items : List String) : Action Unit := do
  logDetail heading
  items.forM fun item => logDetail ("  " ++ item)

/-- The plan that options mean, for declarations in a grammar. -/
def plan (grammar : Declaration.Grammar) (o : Options) : Action Plan := do
  let s ← get
  let base := baseDirectory s.place.workingDirectory o
  logDetail ("baseDir = " ++ inQuotes base)
  let target := (nonempty? o.target).getD "esnext"
  logDetail ("target = " ++ target)
  let outDir ← outputDirectory? base o
  match nonempty? o.moduleResolution with
  | some m => logDetail ("moduleResolution = " ++ m)
  | none => pure ()
  let files := resolveInputs s.place.workingDirectory base o.files
  logList "filenames:" files
  let patterns := o.exclude.getD defaultExcludes
  logList "exclude:" patterns
  return {
    request := ⟨files, { base, target, outDir, moduleResolution := o.moduleResolution }⟩
    assembly := {
      grammar
      base
      package := o.name
      format := { eol := o.eol.getD "\n", indent := o.indent }
      excludes := expandExcludes s.files s.place base patterns } }

end DeclBundle.Bundle
