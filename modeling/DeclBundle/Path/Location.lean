import DeclBundle.Path.Basic
set_option autoImplicit false

/-!
# Locations

The place of a file or directory as settings give it.  A location is tidier than a path: repeated
slashes, single dots and a trailing slash do not count.  It keeps its double dots, since what they
climb out of is for the file system to say.
-/

namespace DeclBundle

/-- A root of no, one or two slashes and the parts below it.  No part is empty or a single dot,
and none holds a slash. -/
structure Location where
  slashes : Nat
  parts : List String
  deriving DecidableEq, Repr

namespace Location

/-- The location that a path names. -/
def ofPath (p : String) : Location where
  slashes := Path.leadingSlashes p
  parts := (Path.segments p).filter fun s => s != "" && s != "."

/-- The path of a location; the location without root and parts is the current directory. -/
def path (l : Location) : String :=
  let text := String.ofList (List.replicate l.slashes '/') ++ Path.ofSegments l.parts
  if text = "" then "." else text

/-- The second location seen from the first. -/
def append (a b : Location) : Location :=
  if b.slashes = 0 then ⟨a.slashes, a.parts ++ b.parts⟩ else b

instance : Append Location := ⟨append⟩

/-- The location that a path names seen from a location. -/
def child (l : Location) (p : String) : Location :=
  l ++ ofPath p

/-- The directory that holds the location.  A root holds itself. -/
def parent (l : Location) : Location :=
  ⟨l.slashes, l.parts.dropLast⟩

/-- The directories above the location, the nearest first. -/
def ancestors (l : Location) : List Location :=
  (List.range l.parts.length).map fun n => ⟨l.slashes, l.parts.take (l.parts.length - 1 - n)⟩

/-- The last part. -/
def name? (l : Location) : Option String :=
  l.parts.getLast?

/-- The location beside this one with another last part. -/
def withName (l : Location) (name : String) : Location :=
  ⟨l.slashes, l.parts.dropLast ++ [name]⟩

end Location

end DeclBundle
