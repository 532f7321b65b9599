import DeclBundle.Declaration.Lexeme
import DeclBundle.Text.Utf8
import DeclBundle.Tree
set_option autoImplicit false

/-!
# Tokens of declaration text

The lexemes of a text without its blanks, each with its place in the source and with a note
whether a line feed stands in the blanks before it.  Comments are tokens, since a statement may
end with one.
-/

namespace DeclBundle.Declaration

/-- A lexeme that is no blank, and its place. -/
structure Token where
  kind : Kind
  text : String
  span : Span
  /-- whether a line feed stands in the blanks before the token -/
  onNewLine : Bool
  deriving DecidableEq, Repr

/-- The tokens of lexemes of which the first begins at the byte `pos`. -/
def tokensFrom (pos : Nat) (onNewLine : Bool) : List Lexeme → List Token
  | [] => []
  | l :: ls =>
    let stop := pos + (Utf8.encode l.text).length
    if l.kind = .blank then tokensFrom stop (onNewLine || l.text.contains '\n') ls
    else ⟨l.kind, .ofList l.text, ⟨pos, stop⟩, onNewLine⟩ :: tokensFrom stop false ls

/-- The tokens of a text. -/
def tokens (cs : List Char) : List Token :=
  tokensFrom 0 false (lex cs)

namespace Token

/-- Whether the token is a comment. -/
def isComment (t : Token) : Bool :=
  !t.kind.isSignificant

/-- Whether the token is a word. -/
def isWord (t : Token) : Bool :=
  t.kind == .word

/-- Whether the token is a given word. -/
def isKeyword (t : Token) (word : String) : Bool :=
  t.kind == .word && t.text == word

/-- Whether the token is the given punctuation. -/
def isMark (t : Token) (mark : String) : Bool :=
  t.kind == .punctuation && t.text == mark

/-- Whether the token is a quoted literal. -/
def isQuoted (t : Token) : Bool :=
  t.kind == .quoted

/-- Whether the token opens a bracket, written as given. -/
def opens (t : Token) (mark : String) : Bool :=
  match t.kind with
  | .opening _ => t.text == mark
  | _ => false

/-- Whether the token closes a bracket. -/
def isClosing (t : Token) : Bool :=
  match t.kind with
  | .closing _ => true
  | _ => false

/-- Whether the token selects a member of what stands before it. -/
def isSelector (t : Token) : Bool :=
  t.isMark "." || t.isMark "?."

end Token

/-- The tokens from the first that is no comment on. -/
def afterComments (ts : List Token) : List Token :=
  ts.dropWhile Token.isComment

/-- The next token that is no comment. -/
def nextToken? (ts : List Token) : Option Token :=
  (afterComments ts).head?

/-- The next token that is no comment, if no line feed outside comments stands before it. -/
def nextOnLine? (ts : List Token) : Option Token :=
  if (ts.takeWhile Token.isComment).any Token.onNewLine then none
  else (nextToken? ts).filter (!·.onNewLine)

end DeclBundle.Declaration
