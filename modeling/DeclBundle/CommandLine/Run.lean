import DeclBundle.Bundle.Generate
import DeclBundle.CommandLine.Arguments
import DeclBundle.CommandLine.Escape
import DeclBundle.CommandLine.Usage
import DeclBundle.Compiler.Run
import DeclBundle.Configuration.SettingsFile
set_option autoImplicit false

/-!
# The command line

The arguments and the settings file give the options of a run.  What ends the run before its time is
told on the console, and the status of the program says whether it ended well.
-/

namespace DeclBundle.CommandLine

open DeclBundle.Configuration (Overrides Options Settings)

/-- How the program ended: with a status, or by a fault that it does not handle. -/
inductive Ending where
  | status (code : Nat)
  | fault (cause : Fault)
  deriving DecidableEq, Repr

/-- What the program leaves behind. -/
structure Outcome where
  ending : Ending
  output : String := ""
  /-- what has been told on the console, behind what the log has shown -/
  message : String := ""
  system : System

/-- Everything that was shown on the error channel of the console. -/
def Outcome.errors (o : Outcome) : String :=
  o.system.log.shown ++ o.message

/-- The location that an argument names, unless it is empty. -/
def location? (argument : Option String) : Option Location :=
  (nonempty? argument).map .ofPath

/-- The overrides that the arguments give. -/
def Arguments.overrides (a : Arguments) : Overrides where
  name := a.name
  out := location? a.out
  baseDir := location? a.baseDir
  project := location? a.project
  files := a.files
  exclude := a.exclude
  externs := a.externs
  main := a.main
  eol := a.eol.map unescape
  indent := a.indent.map unescape
  verbose := a.verbose
  logFile := location? a.logFile

/-- The options that the arguments and the settings file give. -/
def Arguments.options (read : Data.Reader) (a : Arguments) (system : System) :
    Except Fault Options := do
  let settings ← Settings.load read system.files system.place (.ofPath a.config)
  (settings.toOptions a.overrides).mapError .configuration

/-- The message for arguments or settings that cannot be used. -/
def errorMessage (problem : String) : String :=
  usage ++ programName ++ ": error: " ++ problem ++ "\n"

/-- How a fault of a run ends the program. -/
def ofFault (cause : Fault) (system : System) : Outcome :=
  match cause with
  | .configuration _ | .emission _ | .compilerNotFound _ =>
    { ending := .status 1, message := cause.message ++ "\n", system }
  | .files _ =>
    { ending := .status 1, message := programName ++ " failed: " ++ cause.message ++ "\n", system }
  | _ => { ending := .fault cause, system }

/-- Runs the program with options. -/
def runOptions (grammar : Declaration.Grammar) (compiler : Compiler) (o : Options)
    (system : System) : Outcome :=
  match system.log.configure system.files system.place o.verbose o.logFile with
  | .error cause => { ending := .fault (.files cause), system }
  | .ok (log, files) =>
    let run : Bundle.Run := { options := o, system := { system with log, files } }
    match Bundle.generate grammar compiler run with
    | .ok _ r => { ending := .status 0, system := r.system }
    | .error cause r => ofFault cause r.system

/-- Runs the program with arguments, where the settings file is read by a reader and declarations
have the trees of a grammar. -/
def run (read : Data.Reader) (grammar : Declaration.Grammar) (compiler : Compiler)
    (args : List String) (system : System) : Outcome :=
  match parse args with
  | .error .help => { ending := .status 0, output := help, system }
  | .error (.misuse cause) => { ending := .status 2, message := errorMessage cause.message, system }
  | .ok a =>
    match a.options read system with
    | .error (.configuration cause) =>
      { ending := .status 2, message := errorMessage cause.message, system }
    | .error cause => { ending := .fault cause, system }
    | .ok o => runOptions grammar compiler o system

end DeclBundle.CommandLine
