import DeclBundle.Text.Lines
set_option autoImplicit false

/-!
# Paths as texts

A path is a text whose segments are separated by slashes.  This module cuts paths into segments,
joins them, and computes the canonical form of a path: no empty segment, no single dot, and a
double dot only where nothing is left to climb out of.  Nothing here looks at files.
-/

namespace DeclBundle.Path

open Text

/-! ## Segments -/

/-- The texts between the slashes of a path. -/
def segments (p : String) : List String :=
  (splitAtChar '/' p.toList).map .ofList

/-- Segments with a slash between neighbours. -/
def ofSegments (segs : List String) : String :=
  .ofList (joinWithChar '/' (segs.map String.toList))

/-- Cutting a path and joining the segments again changes nothing. -/
theorem ofSegments_segments (p : String) : ofSegments (segments p) = p := by
  simp [ofSegments, segments, Function.comp_def, joinWithChar_splitAtChar]

/-- Whether a path starts at the root. -/
def isAbsolute (p : String) : Bool :=
  beginsWith p "/"

/-! ## Canonical form -/

/-- How many slashes lead the canonical form.  Two leading slashes are kept, because they may
name a root of their own; three or more are one. -/
def leadingSlashes (p : String) : Nat :=
  match p.toList with
  | '/' :: '/' :: '/' :: _ => 1
  | '/' :: '/' :: _ => 2
  | '/' :: _ => 1
  | _ => 0

/-- One step of a walk over segments.  The trail holds the segments so far, the last one first.
A double dot takes back the last segment, is dropped at the root, and is kept where nothing but
double dots precede it. -/
def walkStep (rooted : Bool) (trail : List String) (seg : String) : List String :=
  if seg = "" || seg = "." then trail
  else if seg = ".." then
    match trail with
    | [] => if rooted then [] else [".."]
    | ".." :: _ => ".." :: trail
    | _ :: rest => rest
  else seg :: trail

/-- The segments that a walk along the given ones ends with. -/
def walk (rooted : Bool) (segs : List String) : List String :=
  (segs.foldl (walkStep rooted) []).reverse

/-- The canonical form of a path.  The empty path names the current directory, written `.`. -/
def normalize (p : String) : String :=
  let slashes := leadingSlashes p
  let body := ofSegments (walk (slashes != 0) (segments p))
  let text := String.ofList (List.replicate slashes '/') ++ body
  if text = "" then "." else text

/-! ## Joining and parting -/

/-- The second path seen from the first.  An absolute second path stands for itself. -/
def join (a b : String) : String :=
  if isAbsolute b then b
  else if a = "" || finishesWith a "/" then a ++ b
  else a ++ "/" ++ b

/-- What stands up to the last slash, that slash included, and what stands after it. -/
def splitLast (p : String) : String × String :=
  let tail := p.toList.reverse.takeWhile (· != '/')
  (.ofList (p.toList.take (p.toList.length - tail.length)), .ofList tail.reverse)

/-- A path without its trailing slashes, unless it consists of slashes. -/
def dropTrailingSlashes (p : String) : String :=
  if p.toList.all (· == '/') then p else .ofList (stripEnd (· == '/') p.toList)

/-- The path up to the last slash, without that slash. -/
def directory (p : String) : String :=
  dropTrailingSlashes (splitLast p).1

/-- What stands after the last slash. -/
def fileName (p : String) : String :=
  (splitLast p).2

/-- The canonical absolute form of a path seen from a working directory. -/
def absolute (cwd p : String) : String :=
  normalize (if isAbsolute p then p else join cwd p)

/-- The segments of the absolute form, without the root. -/
def absoluteSegments (cwd p : String) : List String :=
  (segments (absolute cwd p)).filter (· != "")

/-- The longest common beginning of two lists. -/
def commonPrefix : List String → List String → List String
  | a :: as, b :: bs => if a = b then a :: commonPrefix as bs else []
  | _, _ => []

/-- The way from the directory `start` to the path `p`: up to where they part, then down. -/
def relative (cwd p start : String) : String :=
  let here := absoluteSegments cwd start
  let there := absoluteSegments cwd p
  let shared := (commonPrefix here there).length
  let way := List.replicate (here.length - shared) ".." ++ there.drop shared
  if way = [] then "." else ofSegments way

/-! ## Containment -/

/-- Whether a canonical path is a base directory or lies beneath it. -/
def isUnder (path base : String) : Bool :=
  path == base || beginsWith path (.ofList (stripEnd (· == '/') base.toList) ++ "/")

/-- The path with every backslash turned into a slash. -/
def withSlashes (p : String) : String :=
  .ofList (p.toList.map fun c => if c = '\\' then '/' else c)

end DeclBundle.Path
