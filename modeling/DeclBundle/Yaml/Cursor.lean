set_option autoImplicit false

/-!
# Places in a YAML text

A cursor into a YAML text with the line and the column where it stands, and the classes of
characters that the reader tells apart.  Behind the end of the text stands, as it were, a null
character, which no text holds.
-/

namespace DeclBundle.Yaml

/-- Why a text is not one YAML document of plain data. -/
inductive Fault where
  /-- a character that no YAML text may hold -/
  | unprintable
  /-- characters that form no token where they stand -/
  | badToken
  /-- tokens that form no document -/
  | badStructure
  /-- an alias for an anchor that is not there, or an anchor given twice -/
  | badAnchor
  /-- a tag without a meaning, or a node that does not fit its tag -/
  | badTag
  /-- a key that cannot be one -/
  | badKey
  /-- more than one document -/
  | severalDocuments
  deriving DecidableEq, Repr

/-- The words for a fault. -/
def Fault.message : Fault → String
  | .unprintable => "special characters are not allowed"
  | .badToken => "found characters that cannot start any token"
  | .badStructure => "found tokens that form no document"
  | .badAnchor => "found an undefined alias or a duplicate anchor"
  | .badTag => "could not determine a constructor for the tag"
  | .badKey => "found an unhashable key"
  | .severalDocuments => "expected a single document in the stream"

/-- What reading gives. -/
abbrev Result (α : Type) := Except Fault α

/-- What is left of a text, and where it stands. -/
structure Cursor where
  rest : List Char
  index : Nat := 0
  line : Nat := 0
  column : Nat := 0

/-! ## Characters -/

/-- The characters that a YAML text may hold. -/
def isAllowed (c : Char) : Bool :=
  let n := c.toNat
  n == 0x09 || n == 0x0A || n == 0x0D || (0x20 ≤ n && n ≤ 0x7E) || n == 0x85 ||
    (0xA0 ≤ n && n ≤ 0xD7FF) || (0xE000 ≤ n && n ≤ 0xFFFD) || 0x10000 ≤ n

/-- The characters that break lines. -/
def isBreak (c : Char) : Bool :=
  c == '\n' || c == '\r' || c == '\u0085' || c == '\u2028' || c == '\u2029'

/-- The breaks and the end of the text. -/
def isBreakOrEnd (c : Char) : Bool :=
  isBreak c || c == '\x00'

/-- The breaks, the end of the text and the space. -/
def isSpaceOrEnd (c : Char) : Bool :=
  isBreakOrEnd c || c == ' '

/-- The breaks, the end of the text, the space and the tab. -/
def isBlankOrEnd (c : Char) : Bool :=
  isSpaceOrEnd c || c == '\t'

/-- The characters that names of anchors, handles and directives are made of. -/
def isNameChar (c : Char) : Bool :=
  c.isAlphanum || c == '-' || c == '_'

/-! ## Moving on -/

namespace Cursor

/-- The character `n` places on. -/
def peek (k : Cursor) (n : Nat := 0) : Char :=
  (k.rest[n]?).getD '\x00'

/-- The cursor one character on. -/
def next (k : Cursor) : Cursor :=
  match k.rest with
  | [] => k
  | c :: cs =>
    if isBreak c && !(c == '\r' && cs.head? == some '\n') then ⟨cs, k.index + 1, k.line + 1, 0⟩
    else ⟨cs, k.index + 1, k.line, if c = '\ufeff' then k.column else k.column + 1⟩

/-- The cursor `n` characters on. -/
def skip (k : Cursor) : Nat → Cursor
  | 0 => k
  | n + 1 => k.next.skip n

/-- The longest beginning whose characters satisfy `p`, and the cursor behind it. -/
def takeWhile (k : Cursor) (p : Char → Bool) : List Char × Cursor :=
  let cs := k.rest.takeWhile p
  (cs, k.skip cs.length)

/-- The cursor behind the characters that satisfy `p`. -/
def skipWhile (k : Cursor) (p : Char → Bool) : Cursor :=
  (k.takeWhile p).2

/-- The line break at the cursor, as it counts in a scalar, and the cursor behind it. -/
def lineBreak (k : Cursor) : List Char × Cursor :=
  match k.rest with
  | '\r' :: '\n' :: _ => (['\n'], k.skip 2)
  | c :: _ =>
    if c = '\r' || c = '\n' || c = '\u0085' then (['\n'], k.next)
    else if c = '\u2028' || c = '\u2029' then ([c], k.next)
    else ([], k)
  | [] => ([], k)

/-- Whether the mark of a document's beginning or end stands at the cursor. -/
def atDocumentMark (k : Cursor) : Bool :=
  (k.rest.take 3 == ['-', '-', '-'] || k.rest.take 3 == ['.', '.', '.']) && isBlankOrEnd (k.peek 3)

/-- The cursor behind spaces and a comment. -/
def skipComment (k : Cursor) : Cursor :=
  let k := k.skipWhile (· == ' ')
  if k.peek = '#' then k.skipWhile (!isBreakOrEnd ·) else k

/-- The cursor behind what may stand at the end of a line: spaces, a comment and the break. -/
def endOfLine (k : Cursor) : Result Cursor :=
  let k := k.skipComment
  if isBreakOrEnd k.peek then .ok k.lineBreak.2 else .error .badToken

end Cursor

end DeclBundle.Yaml
