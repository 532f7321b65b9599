import DeclBundle.Files.Fault
import DeclBundle.Path.Location
import DeclBundle.Text.Utf8
set_option autoImplicit false

/-!
# File trees

A file system without links, as a value.  An entry is known by the names on the way to it from
the root.  The root is always there and is a directory.
-/

namespace DeclBundle.Files

/-- What stands at a place of the tree. -/
inductive Entry where
  | directory
  | file (content : List UInt8)
  deriving DecidableEq, Repr

/-- Whether an entry is a directory. -/
def Entry.isDirectory : Entry → Bool
  | .directory => true
  | .file _ => false

/-- The way to an entry: the names from the root to it. -/
abbrev Way := List String

/-- The entries of a file system below its root. -/
structure FileTree where
  entries : List (Way × Entry)
  deriving Repr

/-- How paths are understood: where relative paths start, where the home directory is, and where
directories that are needed for a while are made. -/
structure Place where
  workingDirectory : String
  home : String
  temporary : Way := ["tmp"]
  /-- whether the pattern `**` finds the directory where it starts only if there is one; libraries
  that expand patterns differ in this -/
  looksFirst : Bool := true
  deriving DecidableEq, Repr

namespace FileTree

/-- The tree with nothing below its root. -/
def empty : FileTree := ⟨[]⟩

/-- What stands at the end of a way. -/
def entry? (t : FileTree) (way : Way) : Option Entry :=
  if way = [] then some .directory else (t.entries.find? (·.1 == way)).map (·.2)

/-- The tree with an entry put at the end of a way, in place of what stood there. -/
def put (t : FileTree) (way : Way) (e : Entry) : FileTree :=
  if t.entries.any (·.1 == way) then
    ⟨t.entries.map fun (w, old) => if w == way then (w, e) else (w, old)⟩
  else ⟨t.entries ++ [(way, e)]⟩

/-- The tree without what stands at the end of a way and below it. -/
def remove (t : FileTree) (way : Way) : FileTree :=
  ⟨t.entries.filter fun (w, _) => !way.isPrefixOf w⟩

/-- The names of what stands directly in a directory. -/
def names (t : FileTree) (way : Way) : List String :=
  t.entries.filterMap fun (w, _) =>
    if w.length = way.length + 1 && way.isPrefixOf w then w.getLast? else none

/-! ## Following a path -/

/-- The length that a name may have, in bytes. -/
def nameLimit : Nat := 255

/-- The way on from a directory along the segments of a path.  Every segment has to be looked up
in a directory that is there. -/
def follow (t : FileTree) : Way → List String → Except Reason Way
  | way, [] => .ok way
  | way, seg :: segs =>
    match t.entry? way with
    | none => .error .notFound
    | some (.file _) => .error .notDirectory
    | some .directory =>
      if seg = "" || seg = "." then follow t way segs
      else if seg = ".." then follow t way.dropLast segs
      else if nameLimit < (Utf8.encode seg.toList).length then .error .nameTooLong
      else follow t (way ++ [seg]) segs

/-- The way that a path leads, whether or not anything stands at its end. -/
def way (t : FileTree) (place : Place) (path : String) : Except Reason Way :=
  t.follow [] (Path.segments (Path.join place.workingDirectory path))

/-- What a path leads to. -/
def lookup (t : FileTree) (place : Place) (path : String) : Except Reason Entry := do
  match t.entry? (← t.way place path) with
  | some e => .ok e
  | none => .error .notFound

/-- What a path leads to, if anything; a name that is too long is a fault of its own. -/
def probe (t : FileTree) (place : Place) (path : String) : Except Fault (Option Entry) :=
  match t.lookup place path with
  | .ok e => .ok (some e)
  | .error .notFound | .error .notDirectory => .ok none
  | .error r => .error ⟨r, some path⟩

/-- Whether anything stands where a path leads. -/
def isPresent (t : FileTree) (place : Place) (path : String) : Bool :=
  match t.lookup place path with
  | .ok _ => true
  | .error _ => false

/-- Whether a path leads to a directory. -/
def isDirectory (t : FileTree) (place : Place) (path : String) : Bool :=
  match t.lookup place path with
  | .ok e => e.isDirectory
  | .error _ => false

/-- Whether a path leads to a file; a name that is too long is a fault of its own. -/
def isFile (t : FileTree) (place : Place) (path : String) : Except Fault Bool :=
  (t.probe place path).map (·.any (!·.isDirectory))

/-- The names in the directory that a path leads to; none if it leads to no directory. -/
def list (t : FileTree) (place : Place) (path : String) : List String :=
  match t.way place path with
  | .ok w => if (t.entry? w).any Entry.isDirectory then t.names w else []
  | .error _ => []

/-! ## Reading and writing -/

/-- The bytes of a file. -/
def read (t : FileTree) (place : Place) (path : String) : Except Fault (List UInt8) :=
  match t.lookup place path with
  | .ok (.file content) => .ok content
  | .ok .directory => .error ⟨.isDirectory, some path⟩
  | .error r => .error ⟨r, some path⟩

/-- Opens a file for writing anew: it is there afterwards and holds nothing. -/
def truncate (t : FileTree) (place : Place) (path : String) : Except Fault (FileTree × Way) :=
  match t.way place path with
  | .error r => .error ⟨r, some path⟩
  | .ok w =>
    match t.entry? w with
    | some .directory => .error ⟨.isDirectory, some path⟩
    | _ => .ok (t.put w (.file []), w)

/-- The content of a file after bytes have been written from an offset on.  A gap before the offset
is filled with zeros. -/
def writtenAt (content : List UInt8) (offset : Nat) (bytes : List UInt8) : List UInt8 :=
  content.take offset ++ List.replicate (offset - content.length) 0 ++ bytes ++
    content.drop (offset + bytes.length)

/-- Writes bytes into a file from an offset on. -/
def writeAt (t : FileTree) (way : Way) (offset : Nat) (bytes : List UInt8) : FileTree :=
  match t.entry? way with
  | some (.file content) => t.put way (.file (writtenAt content offset bytes))
  | _ => t

/-- Makes one directory. -/
def makeOne (t : FileTree) (place : Place) (path : String) : Except Reason FileTree := do
  let w ← t.way place path
  match t.entry? w with
  | some _ => .error .exists
  | none => .ok (t.put w .directory)

/-- Makes a directory if none is there, once the directories above it are there.  Where that cannot be
done, the tree stays as it is. -/
def makeLast (t : FileTree) (place : Place) (path : String) : Except Fault Unit × FileTree :=
  match t.makeOne place path with
  | .ok made => (.ok (), made)
  | .error r => if t.isDirectory place path then (.ok (), t) else (.error ⟨r, some path⟩, t)

/-- Makes a directory and the directories above it, where they are missing.  What has been made stays
if the rest cannot be made.  The number bounds how many directories above are made. -/
def makeUpTo (t : FileTree) (place : Place) : Nat → Location → Except Fault Unit × FileTree
  | 0, l => t.makeLast place l.path
  | n + 1, l =>
    match t.makeOne place l.path with
    | .error .notFound =>
      if l.parts = [] then (.error ⟨.notFound, some l.path⟩, t)
      else
        match t.makeUpTo place n l.parent with
        | (.ok _, above) => above.makeLast place l.path
        | failed => failed
    | _ => t.makeLast place l.path

/-- The tree in which a directory and the directories above it have been made, where they were
missing. -/
def make (t : FileTree) (place : Place) (l : Location) : Except Fault FileTree :=
  match t.makeUpTo place l.parts.length l with
  | (.ok _, made) => .ok made
  | (.error e, _) => .error e

/-- The tree after an attempt to make a directory and the directories above it, even if it failed. -/
def made (t : FileTree) (place : Place) (l : Location) : FileTree :=
  (t.makeUpTo place l.parts.length l).2

end FileTree

/-- The canonical absolute location that a path names, with one leading slash. -/
def resolve (place : Place) (path : String) : Location :=
  ⟨1, (Location.ofPath (Path.absolute place.workingDirectory path)).parts⟩

end DeclBundle.Files
