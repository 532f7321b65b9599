import DeclBundle.Fault
import DeclBundle.Files.Tree
import DeclBundle.Json.Comments
import DeclBundle.Json.Parser
import DeclBundle.Text.Lines
set_option autoImplicit false

/-!
# Project files

A project file says how a project is compiled, and of which files it consists.  It may extend other
project files: what these say holds where it says nothing itself.  Paths in a file are seen from the
directory of that file, and stay so for the files that extend it.
-/

namespace DeclBundle.Configuration

open Data

/-! ## Reading one file -/

/-- The members of the object that a project file holds. -/
def projectMembers (files : Files.FileTree) (place : Files.Place) (file : Location) :
    Except DeclBundle.Fault (List (Value × Value)) := do
  match files.read place file.path with
  | .error cause => throw (.configuration (.unreadable file cause))
  | .ok bytes =>
    let text := Text.unifyNewlines (← (Utf8.decode bytes).mapError .undecodable)
    let plain := match Json.withoutComments text with
      | [] => ['{', '}']
      | cs => cs
    match Json.parse plain with
    | .error problem => throw (.configuration (.unparsable file (problem.message plain)))
    | .ok (.mapping ms) => return ms
    | .ok _ => throw (.configuration (.notObject file))

/-! ## Finding the file that is extended -/

/-- The places where a file that is extended may be.  A name that is no path is the name of a
package, which is looked for in the directory and in those above it. -/
def extendsCandidates (directory : Location) (name : String) : List Location :=
  if Text.beginsWith name "." || Path.isAbsolute name then [directory.child name]
  else (directory :: directory.ancestors).map fun d => (d.child "node_modules").child name

/-- The first of some locations where a file is. -/
def firstFile? (files : Files.FileTree) (place : Files.Place) :
    List Location → Except DeclBundle.Fault (Option Location)
  | [] => .ok none
  | l :: ls => do
    if ← (files.isFile place l.path).mapError .files then
      return some (Files.resolve place l.path)
    else firstFile? files place ls

/-- The file that a candidate means: itself, with the suffix of JSON, or the project file in it. -/
def extendsFile? (files : Files.FileTree) (place : Files.Place) (candidate : Location) :
    Except DeclBundle.Fault (Option Location) :=
  match candidate.name? with
  | none => .error (.nameless candidate.path)
  | some name =>
    firstFile? files place
      [candidate, candidate.withName (name ++ ".json"), candidate.child projectFileName]

/-- The first file that one of the candidates means. -/
def firstExtendsFile? (files : Files.FileTree) (place : Files.Place) :
    List Location → Except DeclBundle.Fault (Option Location)
  | [] => .ok none
  | candidate :: candidates => do
    match ← extendsFile? files place candidate with
    | some file => return some file
    | none => firstExtendsFile? files place candidates

/-- The file that a project file in a directory extends by a name. -/
def resolveExtends (files : Files.FileTree) (place : Files.Place) (directory : Location)
    (name : String) : Except DeclBundle.Fault Location := do
  match ← firstExtendsFile? files place (extendsCandidates directory name) with
  | some file => return file
  | none => throw (.configuration (.unresolvedExtends name directory))

/-! ## Merging -/

/-- What a project file says, together with the files that it extends. -/
structure Merged where
  /-- settings of the compiler, of which the last with a key counts -/
  compilerOptions : List (Value × Value) := []
  files : Option (List String) := none
  includes : Option (List String) := none
  excludes : Option (List String) := none

namespace Merged

/-- What two files say together, where the second wins. -/
def append (a b : Merged) : Merged where
  compilerOptions := a.compilerOptions ++ b.compilerOptions
  files := b.files.or a.files
  includes := b.includes.or a.includes
  excludes := b.excludes.or a.excludes

instance : Append Merged := ⟨append⟩

/-- Paths as seen from a directory, in canonical form. -/
def seenFrom (directory : Location) (p : String) : String :=
  Path.normalize (Path.join directory.path p)

/-- The settings of the compiler in a file, with the directory of the declarations seen from that of
the file. -/
def ownOptions (directory : Location) (ms : List (Value × Value)) : List (Value × Value) :=
  let own := ((Value.member? ms "compilerOptions").map Value.members).getD []
  match (Value.memberText? own "outDir").filter (· != "") with
  | some d => own ++ [(.text "outDir", .text (seenFrom directory d))]
  | none => own

/-- The paths that a member of a file lists, if the file has the member. -/
def ownPaths (directory : Location) (ms : List (Value × Value)) (key : String) :
    Option (List String) :=
  (Value.member? ms key).map fun v => v.asTexts.map (seenFrom directory)

/-- What the members of a file say on their own. -/
def ofMembers (directory : Location) (ms : List (Value × Value)) : Merged where
  compilerOptions := ownOptions directory ms
  files := ownPaths directory ms "files"
  includes := ownPaths directory ms "include"
  excludes := ownPaths directory ms "exclude"

/-- Reads a project file and the files that it extends.  The chain holds the files that are being
read, each of which extends the next, and the number bounds how many more there can be. -/
def readUpTo (files : Files.FileTree) (place : Files.Place) :
    Nat → List Location → Location → Except DeclBundle.Fault Merged
  | 0, chain, file => .error (.configuration (.circularExtends (chain ++ [file])))
  | depth + 1, chain, file => do
    if chain.contains file then
      throw (.configuration (.circularExtends (chain ++ [file])))
    let ms ← projectMembers files place file
    let inherited ← (Value.memberTexts ms "extends").foldlM (fun merged name => do
      let base ← resolveExtends files place file.parent name
      return merged ++ (← readUpTo files place depth (chain ++ [file]) base)) {}
    return inherited ++ ofMembers file.parent ms

/-- Reads a project file and the files that it extends.  No chain without a repetition is longer
than there are files. -/
def read (files : Files.FileTree) (place : Files.Place) (file : Location) :
    Except DeclBundle.Fault Merged :=
  readUpTo files place (files.entries.length + 2) [] file

end Merged

end DeclBundle.Configuration
