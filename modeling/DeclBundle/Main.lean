import DeclBundle.CommandLine.Run
import DeclBundle.Declaration.Outline
import DeclBundle.Yaml.Document
set_option autoImplicit false

/-!
# The program

Takes in the files below the working directory, runs the command line on them, and writes back what
has changed.  No other program is started from here, so the compiler counts as one that is not
there.  The settings file is read as YAML, and the syntax tree of a declaration file is its outline.
-/

namespace DeclBundle

open Files

/-- The names of the directories on the way to a directory, each with those above it. -/
def waysTo (way : Way) : List (Way × Entry) :=
  (List.range way.length).map fun n => (way.take (n + 1), .directory)

/-- An entry of a directory, and what stands below it.  Links are left out. -/
partial def entriesOf (directory : Way) (e : IO.FS.DirEntry) : IO (List (Way × Entry)) := do
  let way := directory ++ [e.fileName]
  match (← e.path.symlinkMetadata).type with
  | .dir =>
    let below ← (← e.path.readDir).toList.mapM (entriesOf way)
    return (way, .directory) :: below.flatten
  | .file => return [(way, .file (← IO.FS.readBinFile e.path).toList)]
  | _ => return []

/-- Writes an entry that is new or has changed. -/
def writeEntry (old : FileTree) (way : Way) (e : Entry) : IO Unit := do
  if old.entry? way != some e then
    match e with
    | .directory => IO.FS.createDirAll (CommandCompiler.pathOf way)
    | .file content =>
      IO.FS.writeBinFile (CommandCompiler.pathOf way) (ByteArray.mk content.toArray)

/-- Shows what a run has told, and gives its status. -/
def report (o : CommandLine.Outcome) : IO UInt32 := do
  IO.print o.output
  IO.eprint o.errors
  match o.ending with
  | .status code => return code.toUInt32
  | .fault cause =>
    IO.eprintln cause.message
    return 1

end DeclBundle

open DeclBundle in
/-- Runs the program. -/
def main (args : List String) : IO UInt32 := do
  let directory ← IO.currentDir
  let workingDirectory := directory.toString
  let place : Files.Place :=
    { workingDirectory, home := (← IO.getEnv "HOME").getD workingDirectory }
  let way := (Path.segments workingDirectory).filter (· != "")
  let below ← (← directory.readDir).toList.mapM (entriesOf way)
  let files : Files.FileTree := ⟨waysTo way ++ below.flatten⟩
  let compiler : CommandCompiler := { runner := Runner.ofPrograms [] place }
  let outcome :=
    CommandLine.run Yaml.read Declaration.parse compiler.compile args { place, files }
  for (way, e) in outcome.system.files.entries do
    writeEntry files way e
  report outcome
