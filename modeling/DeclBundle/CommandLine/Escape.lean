set_option autoImplicit false

/-!
# Escapes on the command line

Line ends and tabs are awkward to give on a command line, so a backslash and a letter may stand
for them.  No other backslash means anything.
-/

namespace DeclBundle.CommandLine

/-- Puts a character in place of every backslash with a given letter behind it. -/
def replaceEscape (letter meaning : Char) : List Char → List Char
  | [] => []
  | [c] => [c]
  | b :: c :: cs =>
    if b = '\\' && c = letter then meaning :: replaceEscape letter meaning cs
    else b :: replaceEscape letter meaning (c :: cs)

/-- A text with the characters that its escapes stand for. -/
def unescape (s : String) : String :=
  .ofList (replaceEscape 't' '\t' (replaceEscape 'n' '\n' (replaceEscape 'r' '\r' s.toList)))

end DeclBundle.CommandLine
