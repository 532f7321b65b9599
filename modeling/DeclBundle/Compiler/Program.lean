import DeclBundle.System
set_option autoImplicit false

/-!
# Starting programs

A program is known by its name alone, or by its path as seen from the directory that it runs in.
Which programs there are is given from outside: nothing in a file tree can be started.
-/

namespace DeclBundle

/-- What starting a program gives: the text that it prints, and the files afterwards. -/
abbrev Runner := Invocation → Files.FileTree → Except Fault String × Files.FileTree

namespace Runner

/-- A program that prints nothing and touches nothing. -/
def silent : Runner := fun _ files => (.ok "", files)

/-- Why a program is not started.  A path that leads nowhere means that the compiler is not
there. -/
def refusal (reason : Files.Reason) (path : String) : Fault :=
  if reason = .notFound then .compilerNotFound path else .files ⟨reason, some path⟩

/-- Why the program of an invocation, which is none of those that can be started, is not started. -/
def missing (place : Files.Place) (files : Files.FileTree) (directory executable : String) :
    Fault :=
  if !executable.toList.contains '/' then refusal .notFound executable
  else
    let inside : Files.Place :=
      { place with workingDirectory := Path.join place.workingDirectory directory }
    match files.lookup inside executable with
    | .ok _ => refusal .permissionDenied executable
    | .error reason => refusal reason executable

/-- Starts the program of an invocation, if its directory is there and it is one of the given
programs. -/
def ofPrograms (programs : List (String × Runner)) (place : Files.Place) : Runner :=
  fun invocation files =>
    let executable := invocation.arguments.headD ""
    match files.lookup place invocation.directory with
    | .error reason => (.error (refusal reason invocation.directory), files)
    | .ok (.file _) => (.error (refusal .notDirectory invocation.directory), files)
    | .ok .directory =>
      match programs.lookup executable with
      | some program => program invocation files
      | none => (.error (missing place files invocation.directory executable), files)

end Runner

end DeclBundle
