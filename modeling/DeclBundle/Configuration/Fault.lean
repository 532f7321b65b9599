import DeclBundle.Files.Fault
import DeclBundle.Path.Location
set_option autoImplicit false

/-!
# Faults of a configuration

Why the settings of a run, or those of a project, cannot be used.
-/

namespace DeclBundle.Configuration

/-- The name of the file with the settings of a run. -/
def settingsFileName : String := ".dtsbundle.yml"

/-- The name of the file that describes a project. -/
def projectFileName : String := "tsconfig.json"

/-- Why a configuration cannot be used. -/
inductive Fault where
  | noPackageName
  | noOutput
  /-- there is no file that describes the project -/
  | noProject
  /-- the directory of the declarations does not lie under the base directory -/
  | outputOutside (directory base : String)
  | badSettings (fileName problem : String)
  | settingsNotMapping
  /-- files that extend one another, the first of them once more at the end -/
  | circularExtends (chain : List Location)
  | unreadable (file : Location) (cause : Files.Fault)
  | unparsable (file : Location) (problem : String)
  | notObject (file : Location)
  | unresolvedExtends (name : String) (directory : Location)
  deriving DecidableEq, Repr

/-- The words for a fault. -/
def Fault.message : Fault → String
  | .noPackageName => "A package name is required"
  | .noOutput => "An output file is required"
  | .noProject => "Unable to resolve configuration."
  | .outputOutside directory base =>
    "outDir " ++ directory ++ " must be inside the base directory " ++ base
  | .badSettings fileName problem => "Failed to parse " ++ fileName ++ ": " ++ problem
  | .settingsNotMapping => settingsFileName ++ " must contain a mapping at the root"
  | .circularExtends chain =>
    "Circular extends in tsconfig: " ++ " -> ".intercalate (chain.map Location.path)
  | .unreadable file cause => "Unable to read " ++ file.path ++ ": " ++ cause.message
  | .unparsable file problem => "Failed to parse " ++ file.path ++ ": " ++ problem
  | .notObject file => file.path ++ " must contain an object at the root"
  | .unresolvedExtends name directory =>
    "Unable to resolve extended configuration '" ++ name ++ "' from " ++ directory.path

end DeclBundle.Configuration
