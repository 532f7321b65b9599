import DeclBundle.Fault
import DeclBundle.Log
set_option autoImplicit false

/-!
# What a run works on

The files, the log, and the programs that have been started.  An action may change all of these,
and keeps its changes even if it ends in a fault.
-/

namespace DeclBundle

/-- A program that is started: its name and arguments, and the directory that it runs in. -/
structure Invocation where
  arguments : List String
  directory : String
  deriving DecidableEq, Repr

/-- What a run works on. -/
structure System where
  place : Files.Place
  files : Files.FileTree
  log : Log := {}
  /-- the programs that have been started, in order -/
  invocations : List Invocation := []
  deriving Repr

/-- An action on the system. -/
abbrev Action (α : Type) := EStateM Fault System α

namespace System

/-- The system after a message of a part of the program has been logged. -/
def logged (s : System) (level : Level) (part message : String) : System :=
  let (log, files) := s.log.add s.files level part message
  { s with log, files }

end System

namespace Action

/-- Logs a message of a part of the program. -/
def log (level : Level) (part message : String) : Action Unit :=
  modify fun s => s.logged level part message

/-- What a computation on files gives, with a fault of files as the fault of the run. -/
def ofFiles {α : Type} (r : Except Files.Fault α) : Action α :=
  match r with
  | .ok a => pure a
  | .error e => throw (.files e)

end Action

end DeclBundle
