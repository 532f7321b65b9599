import DeclBundle.Text.Lines
set_option autoImplicit false

/-!
# The format of a bundle

A bundle has a line terminator and an indent of its own.  The content of a module keeps the line
ends that it has; those that are the terminator get the indent behind them, unless the line that
they begin is empty.
-/

namespace DeclBundle

/-- The line terminator and the indent of a bundle. -/
structure Format where
  eol : String := "\n"
  indent : String := "\t"
  deriving DecidableEq, Repr

namespace Format

open Text

/-- Whether a terminator begins the list and a line that is not empty follows. -/
def endsBeforeLine (eol cs : List Char) : Bool :=
  match afterStart? eol cs with
  | some rest => !rest.isEmpty && !eol.isPrefixOf rest
  | none => false

/-- Puts the indent behind every terminator that a line follows.  The first `passed` characters
belong to a terminator that has been written. -/
def indentLines (eol indent : List Char) : Nat → List Char → List Char
  | _, [] => []
  | passed + 1, _ :: cs => indentLines eol indent passed cs
  | 0, c :: cs =>
    if endsBeforeLine eol (c :: cs) then eol ++ indent ++ indentLines eol indent (eol.length - 1) cs
    else c :: indentLines eol indent 0 cs

/-- Indents every line but the first, and leaves empty lines empty. -/
def reindent (f : Format) (content : String) : String :=
  .ofList (indentLines f.eol.toList f.indent.toList 0 content.toList)

/-- The block that declares a module. -/
def moduleBlock (f : Format) (id content : String) : String :=
  "declare module '" ++ id ++ "' \x7b" ++ f.eol ++ f.indent ++ f.reindent content ++ f.eol ++
    "\x7d" ++ f.eol

end Format

end DeclBundle
