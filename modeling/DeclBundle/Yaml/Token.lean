import DeclBundle.Text.Utf8
import DeclBundle.Yaml.Scalar
set_option autoImplicit false

/-!
# Tokens of YAML

Indentation, indicators and scalars of a YAML text as a list of tokens.  Deeper indentation opens
a block collection and shallower indentation closes it.  A key is known as one only when the colon
behind it is read; the places where a key may have begun are kept until then, and a key has to
stand on one line and be short.
-/

namespace DeclBundle.Yaml

/-- A tag as it is written: a handle and a suffix, or a whole tag. -/
structure TagText where
  handle : Option String
  suffix : String
  deriving DecidableEq, Repr

/-- A token of YAML. -/
inductive Token where
  /-- the version of a `%YAML` line -/
  | version (major minor : Nat)
  /-- the handle and the meaning of a `%TAG` line -/
  | tagDirective (handle meaning : String)
  /-- a line for other programs -/
  | otherDirective
  | documentStart
  | documentEnd
  | streamEnd
  | blockSequenceStart
  | blockMappingStart
  | blockEnd
  | flowSequenceStart
  | flowSequenceEnd
  | flowMappingStart
  | flowMappingEnd
  | blockEntry
  | flowEntry
  | key
  | value
  | alias (name : String)
  | anchor (name : String)
  | tag (t : TagText)
  | scalar (text : String) (plain : Bool)
  deriving DecidableEq, Repr

/-- A place where a key may have begun: how many tokens stood before it, whether it has to be a
key, and where it stands. -/
structure PossibleKey where
  tokensBefore : Nat
  required : Bool
  index : Nat
  line : Nat
  column : Nat

/-- What has been read of a text. -/
structure Scan where
  cursor : Cursor
  /-- the tokens so far, the last one first -/
  tokens : List Token
  /-- how many flow collections are open -/
  flowLevel : Nat
  /-- the column of the innermost block collection -/
  indent : Int
  /-- the columns of the block collections around it -/
  outerIndents : List Int
  /-- whether a key may begin here -/
  keyAllowed : Bool
  /-- where keys may have begun, one place a flow level -/
  possibleKeys : List (Nat × PossibleKey)

namespace Scan

/-- Nothing has been read. -/
def initial (cs : List Char) : Scan := ⟨⟨cs, 0, 0, 0⟩, [], 0, -1, [], true, []⟩

/-- Whether the text is inside a flow collection. -/
def inFlow (s : Scan) : Bool := s.flowLevel != 0

/-- One more token. -/
def push (s : Scan) (t : Token) : Scan := { s with tokens := t :: s.tokens }

/-- A token put in where `before` tokens stand before it. -/
def insert (s : Scan) (before : Nat) (t : Token) : Scan :=
  let after := s.tokens.length - before
  { s with tokens := s.tokens.take after ++ t :: s.tokens.drop after }

/-- Moves the cursor. -/
def moveTo (s : Scan) (k : Cursor) : Scan := { s with cursor := k }

/-- Whether a key may begin at the next token. -/
def allowKey (s : Scan) (allowed : Bool) : Scan := { s with keyAllowed := allowed }

/-! ## Indentation -/

/-- Closes block collections down to a column; the number bounds how many. -/
def unwindUpTo : Nat → Scan → Int → Scan
  | 0, s, _ => s
  | n + 1, s, column =>
    if column < s.indent then
      unwindUpTo n
        { s.push .blockEnd with
          indent := s.outerIndents.head?.getD (-1)
          outerIndents := s.outerIndents.drop 1 }
        column
    else s

/-- Closes block collections down to a column, outside flow collections. -/
def unwind (s : Scan) (column : Int) : Scan :=
  if s.inFlow then s else unwindUpTo (s.outerIndents.length + 1) s column

/-- Opens a block collection at a column, if it is deeper than the innermost one; its opening token
goes where `before` tokens stand before it. -/
def openBlock (s : Scan) (column : Nat) (t : Token) (before : Nat) : Scan :=
  if s.indent < (column : Int) then
    { s.insert before t with indent := column, outerIndents := s.indent :: s.outerIndents }
  else s

/-! ## Keys -/

/-- The longest that a key may be. -/
def keyLimit : Nat := 1024

/-- Forgets the places where a key can have begun no longer. -/
def dropStaleKeys (s : Scan) : Result Scan :=
  let stale (k : PossibleKey) : Bool :=
    k.line != s.cursor.line || keyLimit < s.cursor.index - k.index
  if s.possibleKeys.any fun e => stale e.2 && e.2.required then .error .badToken
  else .ok { s with possibleKeys := s.possibleKeys.filter fun e => !stale e.2 }

/-- Forgets the place where a key may have begun on this flow level. -/
def dropKey (s : Scan) : Result Scan :=
  if s.possibleKeys.any fun e => e.1 == s.flowLevel && e.2.required then .error .badToken
  else .ok { s with possibleKeys := s.possibleKeys.filter fun e => e.1 != s.flowLevel }

/-- Keeps the place of the next token as one where a key may begin. -/
def saveKey (s : Scan) : Result Scan :=
  if s.keyAllowed then do
    let required := !s.inFlow && s.indent == (s.cursor.column : Int)
    let s ← s.dropKey
    let k := s.cursor
    let entry := (s.flowLevel, ⟨s.tokens.length, required, k.index, k.line, k.column⟩)
    return { s with possibleKeys := entry :: s.possibleKeys }
  else .ok s

/-! ## Between tokens -/

/-- Passes over blanks, comments and line breaks. -/
def toNextTokenUpTo : Nat → Scan → Scan
  | 0, s => s
  | fuel + 1, s =>
    let k := s.cursor.skipComment
    if isBreak k.peek then
      let s := s.moveTo k.lineBreak.2
      toNextTokenUpTo fuel (if s.inFlow then s else s.allowKey true)
    else s.moveTo k

/-- Passes over blanks, comments and line breaks, and a byte order mark at the beginning. -/
def toNextToken (s : Scan) : Scan :=
  let k := s.cursor
  let k := if k.index = 0 && k.peek = '\ufeff' then k.next else k
  toNextTokenUpTo (k.rest.length + 1) (s.moveTo k)

/-! ## Directives -/

/-- The number at a cursor. -/
def number (k : Cursor) : Result (Nat × Cursor) :=
  let (digits, k) := k.takeWhile Char.isDigit
  if digits.isEmpty then .error .badToken
  else .ok (digits.foldl (fun n c => n * 10 + (c.toNat - 48)) 0, k)

/-- The name between exclamation marks that a handle is, or a single exclamation mark. -/
def handle (k : Cursor) : Result (String × Cursor) :=
  if k.peek != '!' then .error .badToken
  else if k.peek 1 = ' ' then .ok ("!", k.next)
  else
    let (name, k) := k.next.takeWhile isNameChar
    if k.peek != '!' then .error .badToken
    else .ok (.ofList ('!' :: name ++ ['!']), k.next)

/-- The characters that a tag may hold beside letters and digits. -/
def tagMarks : List Char := "-;/?:@&=+$,_.!~*'()[]".toList

/-- The bytes of escapes at a cursor, each a percent sign and two hexadecimal digits. -/
def escapedBytes : Nat → Cursor → Result (List UInt8 × Cursor)
  | 0, k => .ok ([], k)
  | fuel + 1, k =>
    if k.peek = '%' then
      match hexNumber? [k.peek 1, k.peek 2] with
      | some n => do
        let (bs, k) ← escapedBytes fuel (k.skip 3)
        return (UInt8.ofNat n :: bs, k)
      | none => .error .badToken
    else .ok ([], k)

/-- The characters of a tag at a cursor. -/
def tagChars : Nat → Cursor → Result (List Char × Cursor)
  | 0, k => .ok ([], k)
  | fuel + 1, k =>
    let c := k.peek
    if c = '%' then do
      let (bs, k) ← escapedBytes (k.rest.length + 1) k
      match Utf8.decode bs with
      | .ok cs => do
        let (rest, k) ← tagChars fuel k
        return (cs ++ rest, k)
      | .error _ => .error .badToken
    else if !k.rest.isEmpty && (c.isAlphanum || tagMarks.contains c) then do
      let (rest, k) ← tagChars fuel k.next
      return (c :: rest, k)
    else .ok ([], k)

/-- The suffix of a tag, which is not empty. -/
def tagSuffix (k : Cursor) : Result (String × Cursor) := do
  let (cs, k) ← tagChars (k.rest.length + 1) k
  if cs.isEmpty then .error .badToken else return (.ofList cs, k)

/-- The directive at a cursor. -/
def directive (k : Cursor) : Result (Token × Cursor) := do
  let (name, k) := k.next.takeWhile isNameChar
  if name.isEmpty || !isSpaceOrEnd k.peek then .error .badToken
  else
    let spaces (k : Cursor) := k.skipWhile (· == ' ')
    if name = "YAML".toList then
      let (major, k) ← number (spaces k)
      if k.peek != '.' then .error .badToken
      else
        let (minor, k) ← number k.next
        if isSpaceOrEnd k.peek then return (.version major minor, ← k.endOfLine)
        else .error .badToken
    else if name = "TAG".toList then
      let (h, k) ← handle (spaces k)
      if k.peek != ' ' then .error .badToken
      else
        let (meaning, k) ← tagSuffix (spaces k)
        if isSpaceOrEnd k.peek then return (.tagDirective h meaning, ← k.endOfLine)
        else .error .badToken
    else return (.otherDirective, ← (k.skipWhile (!isBreakOrEnd ·)).endOfLine)

/-! ## Anchors and tags -/

/-- The characters that may follow the name of an anchor. -/
def endsAnchor (c : Char) : Bool :=
  isBlankOrEnd c || ['?', ':', ',', ']', '}', '%', '@', '`'].contains c

/-- The name behind an ampersand or an asterisk. -/
def anchorName (k : Cursor) : Result (String × Cursor) :=
  let (name, k) := k.next.takeWhile isNameChar
  if name.isEmpty || !endsAnchor k.peek then .error .badToken else .ok (.ofList name, k)

/-- The tag at a cursor. -/
def tagText (k : Cursor) : Result (TagText × Cursor) := do
  let (t, k) ←
    if k.peek 1 = '<' then do
      let (suffix, k) ← tagSuffix (k.skip 2)
      if k.peek != '>' then .error .badToken else pure (⟨none, suffix⟩, k.next)
    else if isBlankOrEnd (k.peek 1) then pure (⟨none, "!"⟩, k.next)
    else do
      let word := (k.rest.drop 1).takeWhile (!isSpaceOrEnd ·)
      let (h, k) ← if word.contains '!' then handle k else pure ("!", k.next)
      let (suffix, k) ← tagSuffix k
      pure (TagText.mk (some h) suffix, k)
  if isSpaceOrEnd k.peek then return (t, k) else .error .badToken

/-! ## The next token -/

/-- Reads a token that may begin a key, with what follows it. -/
def keyed (s : Scan) (read : Cursor → Result (Token × Cursor)) : Result Scan := do
  let s ← s.saveKey
  let (t, k) ← read s.cursor
  return ((s.allowKey false).push t).moveTo k

/-- Opens a flow collection. -/
def openFlow (s : Scan) (t : Token) : Result Scan := do
  let s ← s.saveKey
  return (({ s with flowLevel := s.flowLevel + 1 }.allowKey true).push t).moveTo s.cursor.next

/-- Closes a flow collection; outside of one nothing is to close. -/
def closeFlow (s : Scan) (t : Token) : Result Scan := do
  let s ← s.dropKey
  if s.flowLevel = 0 then .error .badStructure
  else
    return (({ s with flowLevel := s.flowLevel - 1 }.allowKey false).push t).moveTo s.cursor.next

/-- Reads the dash of a block entry or the question mark of a key. -/
def blockIndicator (s : Scan) (opening t : Token) (allowedAfter : Bool) : Result Scan := do
  if !s.inFlow && !s.keyAllowed then .error .badToken
  else
    let s := if s.inFlow then s else s.openBlock s.cursor.column opening s.tokens.length
    let s ← (s.allowKey allowedAfter).dropKey
    return (s.push t).moveTo s.cursor.next

/-- Reads the colon of a value.  If a key may have begun on this flow level, it has begun there. -/
def valueIndicator (s : Scan) : Result Scan := do
  match s.possibleKeys.lookup s.flowLevel with
  | some key =>
    let s := { s with possibleKeys := s.possibleKeys.filter fun e => e.1 != s.flowLevel }
    let s := s.insert key.tokensBefore .key
    let s := if s.inFlow then s else s.openBlock key.column .blockMappingStart key.tokensBefore
    return ((s.allowKey false).push .value).moveTo s.cursor.next
  | none => s.blockIndicator .blockMappingStart .value (!s.inFlow)

/-- Reads the mark of a document's beginning or end. -/
def documentMark (s : Scan) (t : Token) : Result Scan := do
  let s ← (s.unwind (-1)).dropKey
  return ((s.allowKey false).push t).moveTo (s.cursor.skip 3)

/-- Whether a plain scalar may begin at the cursor. -/
def beginsPlain (s : Scan) : Bool :=
  let c := s.cursor.peek
  !(isBlankOrEnd c || "-?:,[]{}#&*!|>'\"%@`".toList.contains c) ||
    (!isBlankOrEnd (s.cursor.peek 1) && (c == '-' || (!s.inFlow && (c == '?' || c == ':'))))

/-- Reads one more token; nothing is left to read if the text has ended. -/
def nextToken (s : Scan) : Result (Option Scan) := do
  let s ← s.toNextToken.dropStaleKeys
  let s := s.unwind s.cursor.column
  let k := s.cursor
  let c := k.peek
  let blankNext := isBlankOrEnd (k.peek 1)
  if k.rest.isEmpty then return none
  else if c = '%' && k.column = 0 then
    let s ← (s.unwind (-1)).dropKey
    let (t, k) ← directive s.cursor
    return some (((s.allowKey false).push t).moveTo k)
  else if c = '-' && k.column = 0 && k.atDocumentMark then some <$> s.documentMark .documentStart
  else if c = '.' && k.column = 0 && k.atDocumentMark then some <$> s.documentMark .documentEnd
  else if c = '[' then some <$> s.openFlow .flowSequenceStart
  else if c = '{' then some <$> s.openFlow .flowMappingStart
  else if c = ']' then some <$> s.closeFlow .flowSequenceEnd
  else if c = '}' then some <$> s.closeFlow .flowMappingEnd
  else if c = ',' then
    let s ← (s.allowKey true).dropKey
    return some ((s.push .flowEntry).moveTo k.next)
  else if c = '-' && blankNext then
    some <$> s.blockIndicator .blockSequenceStart .blockEntry true
  else if c = '?' && (s.inFlow || blankNext) then
    some <$> s.blockIndicator .blockMappingStart .key (!s.inFlow)
  else if c = ':' && (s.inFlow || blankNext) then some <$> s.valueIndicator
  else if c = '*' then
    some <$> s.keyed fun k => do
      let (name, k) ← anchorName k
      return (.alias name, k)
  else if c = '&' then
    some <$> s.keyed fun k => do
      let (name, k) ← anchorName k
      return (.anchor name, k)
  else if c = '!' then
    some <$> s.keyed fun k => do
      let (t, k) ← tagText k
      return (.tag t, k)
  else if (c = '|' || c = '>') && !s.inFlow then
    let s ← (s.allowKey true).dropKey
    let (text, k) ← blockScalar s.indent s.cursor
    return some ((s.push (.scalar text false)).moveTo k)
  else if c = '\'' || c = '"' then
    some <$> s.keyed fun k => do
      let (text, k) ← quotedScalar k
      return (.scalar text false, k)
  else if s.beginsPlain then
    let s ← s.saveKey
    let (text, lineEnded, k) := plainScalar s.inFlow (s.indent + 1) s.cursor
    return some (((s.allowKey lineEnded).push (.scalar text true)).moveTo k)
  else .error .badToken

/-- Reads all tokens. -/
def run : Nat → Scan → Result Scan
  | 0, _ => .error .badToken
  | fuel + 1, s => do
    match ← s.nextToken with
    | some s => run fuel s
    | none =>
      let s ← (s.toNextToken.unwind (-1)).dropStaleKeys
      let s ← s.dropKey
      return s.push .streamEnd

end Scan

/-- The tokens of a YAML text. -/
def tokens (cs : List Char) : Result (List Token) := do
  if cs.all isAllowed then
    let s ← Scan.run (cs.length + 2) (Scan.initial cs)
    return s.tokens.reverse
  else .error .unprintable

end DeclBundle.Yaml
