import DeclBundle.Yaml.Cursor
set_option autoImplicit false

/-!
# Scalars of YAML

The three ways to write a scalar: plain, between quotes, and as a block below its header.  Line
breaks inside a plain or quoted scalar fold into spaces; a block keeps or folds them as its header
says.
-/

namespace DeclBundle.Yaml

/-! ## Quoted scalars -/

/-- The character that a letter stands for behind a backslash. -/
def escapes : List (Char × Char) :=
  [('0', '\x00'), ('a', '\x07'), ('b', '\x08'), ('t', '\t'), ('\t', '\t'), ('n', '\n'),
    ('v', '\x0b'), ('f', '\x0c'), ('r', '\r'), ('e', '\x1b'), (' ', ' '), ('"', '"'),
    ('\\', '\\'), ('/', '/'), ('N', '\u0085'), ('_', '\u00a0'), ('L', '\u2028'),
    ('P', '\u2029')]

/-- How many hexadecimal digits follow a letter behind a backslash. -/
def codeLength? (c : Char) : Option Nat :=
  if c = 'x' then some 2 else if c = 'u' then some 4 else if c = 'U' then some 8 else none

/-- The value of a hexadecimal digit. -/
def hexValue? (c : Char) : Option Nat :=
  if c.isDigit then some (c.toNat - 48)
  else if 'a' ≤ c && c ≤ 'f' then some (c.toNat - 87)
  else if 'A' ≤ c && c ≤ 'F' then some (c.toNat - 55)
  else none

/-- The number that hexadecimal digits stand for. -/
def hexNumber? (cs : List Char) : Option Nat :=
  cs.foldlM (fun n c => (hexValue? c).map (n * 16 + ·)) 0

/-- The breaks of the empty lines at a cursor.  A document may not end inside a scalar. -/
def emptyLines : Nat → Cursor → Result (List Char × Cursor)
  | 0, k => .ok ([], k)
  | fuel + 1, k =>
    if k.atDocumentMark then .error .badToken
    else
      let k := k.skipWhile fun c => c == ' ' || c == '\t'
      if isBreak k.peek then do
        let (b, k) := k.lineBreak
        let (bs, k) ← emptyLines fuel k
        return (b ++ bs, k)
      else .ok ([], k)

/-- What a line break and the empty lines after it fold into. -/
def folded (lineBreak breaks : List Char) : List Char :=
  if lineBreak != ['\n'] then lineBreak ++ breaks
  else if breaks.isEmpty then [' ']
  else breaks

/-- The characters of a quoted scalar up to and without its closing quote. -/
def quotedText (mark : Char) : Nat → Cursor → Result (List Char × Cursor)
  | 0, _ => .error .badToken
  | fuel + 1, k =>
    let c := k.peek
    let continueWith (text : List Char) (k : Cursor) : Result (List Char × Cursor) := do
      let (rest, k) ← quotedText mark fuel k
      return (text ++ rest, k)
    if k.rest.isEmpty then .error .badToken
    else if c = ' ' || c = '\t' then
      let (blanks, k) := k.takeWhile fun c => c == ' ' || c == '\t'
      if isBreak k.peek then do
        let (b, k) := k.lineBreak
        let (bs, k) ← emptyLines (k.rest.length + 1) k
        continueWith (folded b bs) k
      else continueWith blanks k
    else if isBreak c then do
      let (b, k) := k.lineBreak
      let (bs, k) ← emptyLines (k.rest.length + 1) k
      continueWith (folded b bs) k
    else if mark = '\'' && c = '\'' && k.peek 1 = '\'' then continueWith ['\''] (k.skip 2)
    else if c = mark then .ok ([], k.next)
    else if mark = '"' && c = '\\' then
      let k := k.next
      let c := k.peek
      match codeLength? c with
      | some n =>
        let digits := (k.rest.drop 1).take n
        match hexNumber? digits with
        | some code =>
          if digits.length = n && code.isValidChar then continueWith [.ofNat code] (k.skip (n + 1))
          else .error .badToken
        | none => .error .badToken
      | none =>
        if isBreak c then do
          let (_, k) := k.lineBreak
          let (bs, k) ← emptyLines (k.rest.length + 1) k
          continueWith bs k
        else
          match escapes.lookup c with
          | some d => if k.rest.isEmpty then .error .badToken else continueWith [d] k.next
          | none => .error .badToken
    else continueWith [c] k.next

/-- The quoted scalar at a cursor. -/
def quotedScalar (k : Cursor) : Result (String × Cursor) := do
  let (cs, k') ← quotedText k.peek (k.rest.length + 1) k.next
  return (.ofList cs, k')

/-! ## Plain scalars -/

/-- Whether a plain scalar ends before a character that another one follows. -/
def endsPlain (inFlow : Bool) (c following : Char) : Bool :=
  isBlankOrEnd c ||
    (c == ':' && (isBlankOrEnd following || (inFlow && [',', '[', ']', '{', '}'].contains following))) ||
    (inFlow && [',', '?', '[', ']', '{', '}'].contains c)

/-- The length of the longest beginning without an end of a plain scalar in it. -/
def plainLength (inFlow : Bool) : List Char → Nat
  | [] => 0
  | c :: cs =>
    if endsPlain inFlow c (cs.head?.getD '\x00') then 0 else plainLength inFlow cs + 1

/-- The breaks of the lines between two lines of a plain scalar; none if a document mark comes. -/
def plainBreaks : Nat → Cursor → Option (List Char) × Cursor
  | 0, k => (some [], k)
  | fuel + 1, k =>
    if k.peek = ' ' then plainBreaks fuel k.next
    else if isBreak k.peek then
      let (b, k) := k.lineBreak
      if k.atDocumentMark then (none, k)
      else
        let (bs, k) := plainBreaks fuel k
        (bs.map (b ++ ·), k)
    else (some [], k)

/-- What stands between two words of a plain scalar, empty if the scalar ends, and whether a line
ended there. -/
def plainSpaces (k : Cursor) : List Char × Bool × Cursor :=
  let (blanks, k) := k.takeWhile (· == ' ')
  if isBreak k.peek then
    let (b, k) := k.lineBreak
    if k.atDocumentMark then ([], true, k)
    else
      match plainBreaks (k.rest.length + 1) k with
      | (none, k) => ([], true, k)
      | (some bs, k) => (folded b bs, true, k)
  else (blanks, false, k)

/-- The words of a plain scalar that belongs to an indentation below `indent`.  The text `spaces`
stands before the next word.  Also says whether a line ended behind the last word. -/
def plainWords (inFlow : Bool) (indent : Int) (spaces : List Char) (lineEnded : Bool) :
    Nat → Cursor → List Char × Bool × Cursor
  | 0, k => ([], lineEnded, k)
  | fuel + 1, k =>
    if k.peek = '#' then ([], lineEnded, k)
    else
      let n := plainLength inFlow k.rest
      if n = 0 then ([], lineEnded, k)
      else
        let word := spaces ++ k.rest.take n
        let (spaces, lineEnded, k) := plainSpaces (k.skip n)
        if spaces.isEmpty || k.peek = '#' || (!inFlow && k.column < indent) then
          (word, lineEnded, k)
        else
          let (rest, lineEnded, k) := plainWords inFlow indent spaces lineEnded fuel k
          (word ++ rest, lineEnded, k)

/-- The plain scalar at a cursor, and whether a line ended behind it. -/
def plainScalar (inFlow : Bool) (indent : Int) (k : Cursor) : String × Bool × Cursor :=
  let (cs, lineEnded, k) := plainWords inFlow indent [] false (k.rest.length + 1) k
  (.ofList cs, lineEnded, k)

/-! ## Block scalars -/

/-- What happens to the line breaks at the end of a block. -/
inductive Chomping where
  | strip
  | clip
  | keep
  deriving DecidableEq, Repr

/-- The chomping that a sign in the header asks for. -/
def chompingOf? (c : Char) : Option Chomping :=
  if c = '+' then some .keep else if c = '-' then some .strip else none

/-- The indentation that a digit in the header asks for. -/
def incrementOf? (c : Char) : Option Nat :=
  if c.isDigit then some (c.toNat - 48) else none

/-- The header of a block: its chomping and the indentation that it asks for. -/
def blockHeader (k : Cursor) : Result (Chomping × Option Nat × Cursor) := do
  let (chomping, increment, k) :=
    match chompingOf? k.peek, incrementOf? k.peek with
    | some ch, _ =>
      match incrementOf? (k.peek 1) with
      | some n => (ch, some n, k.skip 2)
      | none => (ch, none, k.next)
    | none, some n =>
      match chompingOf? (k.peek 1) with
      | some ch => (ch, some n, k.skip 2)
      | none => (.clip, some n, k.next)
    | none, none => (.clip, none, k)
  if increment = some 0 || !isSpaceOrEnd k.peek then .error .badToken
  else return (chomping, increment, ← k.endOfLine)

/-- The empty lines before a block, and the greatest column that spaces reach there. -/
def blockLead : Nat → Nat → Cursor → List Char × Nat × Cursor
  | 0, deepest, k => ([], deepest, k)
  | fuel + 1, deepest, k =>
    if k.peek = ' ' then
      let k := k.next
      blockLead fuel (max deepest k.column) k
    else if isBreak k.peek then
      let (b, k) := k.lineBreak
      let (bs, deepest, k) := blockLead fuel deepest k
      (b ++ bs, deepest, k)
    else ([], deepest, k)

/-- The cursor behind at most as many spaces as lead to a column. -/
def toColumn (indent : Nat) : Nat → Cursor → Cursor
  | 0, k => k
  | fuel + 1, k => if k.column < indent && k.peek = ' ' then toColumn indent fuel k.next else k

/-- The empty lines between two lines of a block. -/
def blockBreaks (indent : Nat) : Nat → Cursor → List Char × Cursor
  | 0, k => ([], k)
  | fuel + 1, k =>
    let k := toColumn indent indent k
    if isBreak k.peek then
      let (b, k) := k.lineBreak
      let (bs, k) := blockBreaks indent fuel k
      (b ++ bs, k)
    else ([], k)

/-- The lines of a block of a given indentation behind the empty lines `breaks`. -/
def blockLines (fold : Bool) (chomping : Chomping) (indent : Nat) (breaks : List Char) :
    Nat → Cursor → List Char × Cursor
  | 0, k => ([], k)
  | fuel + 1, k =>
    let flush := k.peek != ' ' && k.peek != '\t'
    let (line, k) := k.takeWhile (!isBreakOrEnd ·)
    let (b, k) := k.lineBreak
    let (bs, k) := blockBreaks indent (k.rest.length + 1) k
    if k.column = indent && !k.rest.isEmpty then
      let joint :=
        if fold && b = ['\n'] && flush && k.peek != ' ' && k.peek != '\t' then
          if bs.isEmpty then [' '] else []
        else b
      let (rest, k) := blockLines fold chomping indent bs fuel k
      (breaks ++ line ++ joint ++ rest, k)
    else
      let tail :=
        match chomping with
        | .strip => []
        | .clip => b
        | .keep => b ++ bs
      (breaks ++ line ++ tail, k)

/-- The block scalar at a cursor, inside a collection of the given indentation. -/
def blockScalar (outer : Int) (k : Cursor) : Result (String × Cursor) := do
  let fold := k.peek = '>'
  let (chomping, increment, k) ← blockHeader k.next
  let least := (max (outer + 1) 1).toNat
  let fuel := k.rest.length + 1
  let (breaks, indent, k) :=
    match increment with
    | some n =>
      let indent := least + n - 1
      let (bs, k) := blockBreaks indent fuel k
      (bs, indent, k)
    | none =>
      let (bs, deepest, k) := blockLead fuel 0 k
      (bs, max least deepest, k)
  if k.column = indent && !k.rest.isEmpty then
    let (cs, k) := blockLines fold chomping indent breaks fuel k
    return (.ofList cs, k)
  else return (.ofList (if chomping = .keep then breaks else []), k)

end DeclBundle.Yaml
