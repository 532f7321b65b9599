import DeclBundle.Path.Location
import DeclBundle.Files.Tree
set_option autoImplicit false

/-!
# The log of a run

Messages have a level and come from a part of the program.  The console shows plain progress as it
is and names the level of anything else; a log file keeps every message.  A log that has not been
set up shows only warnings, and what is louder.
-/

namespace DeclBundle

/-! ## Levels -/

/-- How loud a message is. -/
abbrev Level := Int

namespace Level

/-- Details that help in finding out what went wrong. -/
def debug : Level := 10

/-- Progress. -/
def info : Level := 20

/-- Something that may be wrong. -/
def warning : Level := 30

/-- The name of a level.  A level without a name of its own is known by its number. -/
def name (l : Level) : String :=
  if l = 0 then "NOTSET"
  else if l = debug then "DEBUG"
  else if l = info then "INFO"
  else if l = warning then "WARNING"
  else if l = 40 then "ERROR"
  else if l = 50 then "CRITICAL"
  else "Level " ++ toString l

end Level

/-- The name that the part of the program is logged by. -/
def logName (part : String) : String :=
  if part = "" then "dtsbundle" else "dtsbundle." ++ part

/-! ## The log -/

/-- A log file and how many bytes have been written to it. -/
structure LogFile where
  way : Files.Way
  position : Nat := 0
  deriving DecidableEq, Repr

/-- What has become of the messages so far, and where the next ones go. -/
structure Log where
  /-- all text that the console has shown -/
  shown : String := ""
  /-- the lowest level that the console shows, once the log has been set up -/
  threshold : Option Level := none
  file : Option LogFile := none
  deriving DecidableEq, Repr

namespace Log

/-- The line that the console shows for a message. -/
def consoleLine (level : Level) (message : String) : String :=
  if level = Level.info then message ++ "\n" else level.name.toLower ++ ": " ++ message ++ "\n"

/-- The line that a log file keeps for a message. -/
def fileLine (level : Level) (part message : String) : String :=
  level.name ++ " " ++ logName part ++ ": " ++ message ++ "\n"

/-- What the console shows for a message. -/
def display (l : Log) (level : Level) (message : String) : String :=
  match l.threshold with
  | some threshold =>
    if Level.debug ≤ level ∧ threshold ≤ level then consoleLine level message else ""
  | none => if Level.warning ≤ level then message ++ "\n" else ""

/-- How many places messages go to. -/
def outlets (l : Log) : Nat :=
  (if l.threshold.isSome then 1 else 0) + (if l.file.isSome then 1 else 0)

/-- Logs a message. -/
def add (l : Log) (files : Files.FileTree) (level : Level) (part message : String) :
    Log × Files.FileTree :=
  let l := { l with shown := l.shown ++ l.display level message }
  match l.file with
  | none => (l, files)
  | some f =>
    if level < Level.debug then (l, files)
    else
      let bytes := Utf8.encode (fileLine level part message).toList
      ({ l with file := some { f with position := f.position + bytes.length } },
        files.writeAt f.way f.position bytes)

/-- Sets up the log anew.  The console shows progress and what is louder, or everything if the log
is verbose.  A log file is emptied, or made with the directories above it. -/
def configure (l : Log) (files : Files.FileTree) (place : Files.Place) (verbose : Bool)
    (file : Option Location) : Except Files.Fault (Log × Files.FileTree) := do
  let l : Log :=
    { l with threshold := some (if verbose then Level.debug else Level.info), file := none }
  match file with
  | none => return (l, files)
  | some p =>
    let files ← files.make place p.parent
    let (files, way) ← files.truncate place (Path.absolute place.workingDirectory p.path)
    return ({ l with file := some { way } }, files)

end Log

end DeclBundle
