import DeclBundle.Fault
import DeclBundle.Files.Tree
set_option autoImplicit false

/-!
# Output documents

A document takes texts one after the other and is closed once.  What has been written is never
looked at again.  Beneath a document lies a stream, which may refuse a text or complain when it is
flushed or closed.  A document over a file gives its text to the file when it is closed.
-/

namespace DeclBundle

/-! ## Streams -/

/-- What a document writes to. -/
structure Stream where
  /-- all text that has been taken -/
  contents : String := ""
  /-- how many texts have been offered -/
  offers : Nat := 0
  /-- the number, counted from one, of the text that is refused -/
  refused : Option Nat := none
  /-- whether flushing ends in a fault -/
  failsToFlush : Bool := false
  /-- whether closing for the first time ends in a fault -/
  failsToClose : Bool := false
  /-- how often the stream has been closed -/
  closes : Nat := 0
  isClosed : Bool := false
  deriving DecidableEq, Repr

namespace Stream

/-- Offers a text to the stream.  A stream that refuses takes nothing of it. -/
def write (s : Stream) (text : String) : Except Files.Fault Unit × Stream :=
  let s := { s with offers := s.offers + 1 }
  if s.refused = some s.offers then (.error ⟨.noSpace, none⟩, s)
  else (.ok (), { s with contents := s.contents ++ text })

/-- Asks the stream to pass on what it holds back, which changes nothing that can be seen of it. -/
def flush (s : Stream) : Except Files.Fault Unit :=
  if s.failsToFlush then .error ⟨.inputOutput, none⟩ else .ok ()

/-- Closes the stream, which is closed even if it complains. -/
def close (s : Stream) : Except Files.Fault Unit × Stream :=
  let closed := { s with closes := s.closes + 1, isClosed := true }
  if s.failsToClose && s.closes = 0 then (.error ⟨.inputOutput, none⟩, closed)
  else (.ok (), closed)

end Stream

/-! ## Documents -/

/-- A document and the stream that it writes to. -/
structure Document where
  name : String := "<stream>"
  stream : Stream := {}
  isClosed : Bool := false
  /-- the file that gets the text, if there is one -/
  file : Option Files.Way := none
  deriving DecidableEq, Repr

namespace Document

/-- The text that has been written. -/
def contents (d : Document) : String :=
  d.stream.contents

/-- Opens a document over a file, which is emptied, or made with the directories above it. -/
def openFile (files : Files.FileTree) (place : Files.Place) (file : Location) :
    Except Files.Fault (Document × Files.FileTree) := do
  let files ← files.make place file.parent
  let (files, way) ← files.truncate place file.path
  return ({ name := file.path, file := some way }, files)

/-- Writes a text behind those that have been written. -/
def write (d : Document) (text : String) : Except Fault Unit × Document :=
  if d.isClosed then (.error (.closedDocument d.name), d)
  else
    let (r, s) := d.stream.write text
    (r.mapError .files, { d with stream := s })

/-- Writes several texts, up to the first one that is refused. -/
def writeAll (d : Document) : List String → Except Fault Unit × Document
  | [] => (.ok (), d)
  | text :: texts =>
    match d.write text with
    | (.ok _, d) => d.writeAll texts
    | (.error e, d) => (.error e, d)

/-- Closes the document.  A document that is closed stays as it is.  The stream is flushed first and
then closed in any case; a fault of closing stands in place of one of flushing. -/
def close (d : Document) : Except Fault Unit × Document :=
  if d.isClosed then (.ok (), d)
  else
    let flushed := d.stream.flush
    let (closed, s) := d.stream.close
    let result := closed.bind fun _ => flushed
    (result.mapError .files, { d with stream := s, isClosed := true })

/-- Uses the document and closes it, whatever the use gives.  A fault of closing stands in place of
one of the use. -/
def during {ε α : Type} (asError : Fault → ε) (use : Document → Except ε α × Document)
    (d : Document) : Except ε α × Document :=
  let (r, d) := use d
  match d.close with
  | (.ok _, d) => (r, d)
  | (.error e, d) => (.error (asError e), d)

/-- Gives the text of the document to its file, if it has one. -/
def save (d : Document) (files : Files.FileTree) : Files.FileTree :=
  match d.file with
  | none => files
  | some way => files.writeAt way 0 (Utf8.encode d.contents.toList)

end Document

end DeclBundle
