import DeclBundle.Files.Pattern
import DeclBundle.Files.Tree
set_option autoImplicit false

/-!
# Expanding patterns over paths

The paths of a file tree that fit a pattern, segment by segment.  A segment `**` stands for any
number of directories, and at the end for a directory and all that lies below it.  Names that begin
with a dot are found only by a segment that begins with one.
-/

namespace DeclBundle.Files

/-- Where patterns are expanded. -/
structure Globe where
  tree : FileTree
  place : Place
  /-- the directory where relative patterns start; if empty, the working directory -/
  base : String

namespace Globe

/-- A path seen from a directory, where an empty path or directory does not count. -/
def under (directory path : String) : String :=
  if directory = "" || path = "" then directory ++ path else Path.join directory path

/-- A path seen from the directory where patterns start. -/
def within (g : Globe) (path : String) : String :=
  under g.base path

/-- The names in a directory, or only those of directories. -/
def namesIn (g : Globe) (directory : String) (onlyDirectories : Bool) : List String :=
  (g.tree.list g.place directory).filter fun n =>
    !onlyDirectories || g.tree.isDirectory g.place (Path.join directory n)

/-- Whether a name is found only if it is asked for by its dot. -/
def isHidden (name : String) : Bool :=
  Text.beginsWith name "."

/-- All that lies below a directory and is not hidden, at most `depth` levels deep. -/
def below (g : Globe) (onlyDirectories : Bool) : Nat → String → List String
  | 0, _ => []
  | depth + 1, directory =>
    (g.namesIn directory onlyDirectories).flatMap fun n =>
      if isHidden n then []
      else n :: (below g onlyDirectories depth (under directory n)).map (under n ·)

/-- No way in the tree is longer than this. -/
def depthBound (g : Globe) : Nat :=
  (g.tree.entries.map (·.1.length)).foldl max 0 + 1

/-- A directory as a path from itself, if it is there or is not looked up.  The working directory,
which has the empty path, never is. -/
def itself (g : Globe) (directory : String) : List String :=
  if directory = "" || !g.place.looksFirst || g.tree.isDirectory g.place directory then [""] else []

/-- What one segment finds in a directory, each as a path from there. -/
def inDirectory (g : Globe) (onlyDirectories : Bool) (directory segment : String) : List String :=
  if segment = "**" then
    g.itself directory ++ g.below onlyDirectories g.depthBound directory
  else if isPattern segment then
    (g.namesIn directory onlyDirectories).filter fun n =>
      (isHidden segment || !isHidden n) && matchesPattern segment n
  else if segment = "" then if g.tree.isDirectory g.place directory then [""] else []
  else if g.tree.isPresent g.place (under directory segment) then [segment]
  else []

/-- The paths that fit a pattern.  The number bounds the segments of the pattern. -/
def expandUpTo (g : Globe) : Nat → Bool → String → List String
  | 0, _, _ => []
  | bound + 1, onlyDirectories, pattern =>
    let (head, segment) := Path.splitLast pattern
    let directory := Path.dropTrailingSlashes head
    if !isPattern pattern then
      if segment != "" then
        if g.tree.isPresent g.place (g.within pattern) then [pattern] else []
      else if g.tree.isDirectory g.place (g.within directory) then [pattern] else []
    else if directory = "" then g.inDirectory onlyDirectories g.base segment
    else
      let directories :=
        if isPattern directory then expandUpTo g bound true directory else [directory]
      directories.flatMap fun d =>
        (g.inDirectory onlyDirectories (g.within d) segment).map (Path.join d ·)

/-- The paths that fit a pattern.  A pattern that begins with `**` does not find the directory where
it starts. -/
def expand (g : Globe) (pattern : String) : List String :=
  let found := g.expandUpTo (pattern.toList.length + 1) false pattern
  if pattern = "" || Text.beginsWith pattern "**" then
    match found with
    | "" :: rest => rest
    | _ => found
  else found

end Globe

end DeclBundle.Files
