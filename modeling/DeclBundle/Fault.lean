import DeclBundle.Assembly
import DeclBundle.Configuration.Fault
set_option autoImplicit false

/-!
# Faults

Everything that can end a bundling run before its time.
-/

namespace DeclBundle

/-- Why a run ended. -/
inductive Fault where
  | configuration (cause : Configuration.Fault)
  /-- the compiler complained, or left out a file -/
  | emission (diagnostics : List Diagnostic)
  /-- the compiler, or the directory that it should run in, is not there -/
  | compilerNotFound (path : String)
  | files (cause : Files.Fault)
  | undecodable (cause : Utf8.Fault)
  | outsideBase (cause : ModuleId.OutsideBase)
  | closedDocument (name : String)
  /-- a path that has no last part -/
  | nameless (path : String)
  deriving DecidableEq, Repr

/-- The words for a fault. -/
def Fault.message : Fault → String
  | .configuration cause => cause.message
  | .emission diagnostics => formatDiagnostics diagnostics
  | .compilerNotFound path => "TypeScript compiler not found: " ++ path
  | .files cause => cause.message
  | .undecodable cause => cause.message
  | .outsideBase cause => cause.message
  | .closedDocument name => "write to closed output document " ++ name
  | .nameless path => "PosixPath('" ++ path ++ "') has an empty name"

/-- The fault of a run that a file without a block is. -/
def AssemblyFault.asFault : AssemblyFault → Fault
  | .outsideBase cause => .outsideBase cause
  | .undecodable cause => .undecodable cause

end DeclBundle
