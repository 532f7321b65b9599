import DeclBundle.Declaration.Construct
set_option autoImplicit false

/-!
# The outline of a declaration file

One pass over the tokens builds the tree of a declaration file.  Every bracket pair becomes a
group, and the constructs found between its brackets become the trees inside it; what is found
outside all brackets stands directly below the file.  What belongs to a construct already found is
passed over.
-/

namespace DeclBundle.Declaration

/-- What the inside of a bracket pair is. -/
inductive Region where
  /-- the members of a class -/
  | classBody
  /-- the arguments of `import(…)` -/
  | importArguments
  | plain
  deriving DecidableEq, Repr

/-- A bracket pair that is still open, and what has been found in it. -/
structure Frame where
  region : Region
  start : Nat
  /-- the trees found so far, the last one first -/
  found : List Node
  /-- the last token that is no comment -/
  previous : Option Token
  /-- in the head of a class, how many angle brackets are open -/
  classHead : Option Nat
  /-- whether `import` with its bracket right behind it has just been read -/
  importCall : Bool

/-- The node of a part that is no construct itself. -/
def groupNode (span : Span) (parts : List Node) : Node :=
  .node { type := "group" } span parts

/-- The node of a bracket pair that is closed at `stop`. -/
def Frame.node (f : Frame) (stop : Nat) : Node :=
  let span : Span := ⟨f.start, stop⟩
  if f.region = .importArguments then .node { type := "arguments" } span f.found.reverse
  else groupNode span f.found.reverse

/-- An open bracket pair in which nothing has been found. -/
def Frame.empty (region : Region) (start : Nat) : Frame :=
  ⟨region, start, [], none, none, false⟩

/-- An outline in the making. -/
structure Outline where
  inner : Frame
  /-- the bracket pairs around the innermost one, from inside to outside -/
  outer : List Frame
  /-- the source up to here belongs to constructs already found -/
  covered : Nat

/-- The outline of nothing yet. -/
def Outline.initial : Outline := ⟨.empty .plain 0, [], 0⟩

/-- Whether a statement that begins after a token is part of another one. -/
def endsStatementHead (t : Token) : Bool :=
  t.isKeyword "else" || t.isKeyword "do" || t.isMark ":" ||
    t.kind == .closing (some (.round true))

/-- Puts a tree into the innermost bracket pair. -/
def Outline.add (o : Outline) (n : Node) : Outline :=
  { o with inner := { o.inner with found := n :: o.inner.found } }

/-- Puts a statement into the innermost bracket pair, of which the source up to `covered` needs no
more reading.  A statement that is part of another one is grouped, so that it does not stand
beside the statements of the file. -/
def Outline.addStatement (o : Outline) (n : Node) (covered : Nat) : Outline :=
  let n := if o.inner.previous.any endsStatementHead then groupNode n.span [n] else n
  { o.add n with covered := covered }

/-- Closes the innermost bracket pair at `stop`. -/
def Outline.close (o : Outline) (stop : Nat) : Outline :=
  match o.outer with
  | [] => o
  | f :: fs => { o with inner := { f with found := o.inner.node stop :: f.found }, outer := fs }

/-- Whether a class head begins with the word `class` before the given tokens. -/
def beginsClassHead (ts : List Token) : Bool :=
  (nextToken? ts).any fun t => t.isWord || t.opens "\x7b" || t.isMark "<"

/-- Whether a literal is an argument of its own: it stands between the bracket or commas. -/
def isWholeArgument (previous : Option Token) (ts : List Token) : Bool :=
  previous.all (·.isMark ",") && (nextToken? ts).any fun t => t.isMark "," || t.isClosing

/-- What a word adds to the outline; `ts` follows it. -/
def Outline.word (o : Outline) (t : Token) (ts : List Token) : Outline :=
  if o.inner.previous.any Token.isSelector then o
  else if t.text = "import" then
    match importStatement? t.span.start ts with
    | some n => o.addStatement n n.stop
    | none =>
      if ts.head?.any (·.opens "(") then
        let o := o.add (wordNode t)
        { o with inner := { o.inner with importCall := true } }
      else o
  else if t.text = "export" && o.inner.region != .classBody then
    match exportStatement? t ts with
    | some n => o.addStatement n n.stop
    | none => o
  else if t.text = "declare" then
    if o.inner.region = .classBody then
      if modifiesField o.inner.previous t ts then o.add (wordNode t) else o
    else if o.inner.previous.any (·.isMark "@") then o
    else
      match ambientDeclaration? t ts with
      | some (n, first) => o.addStatement n first
      | none => o
  else if t.text = "class" && beginsClassHead ts then
    { o with inner := { o.inner with classHead := some 0 } }
  else o

/-- What punctuation means in the head of a class. -/
def angleDepth (t : Token) (depth : Nat) : Option Nat :=
  if t.isMark "<" then some (depth + 1)
  else if t.isMark ">" then some (depth - 1)
  else if t.isMark ";" then none
  else some depth

/-- The outline after one more token; `ts` follows it. -/
def Outline.step (o : Outline) (t : Token) (ts : List Token) : Outline :=
  if t.isComment then o
  else
    let passed (o : Outline) : Outline :=
      { o with inner := { o.inner with previous := some t } }
    if t.span.start < o.covered then passed o
    else
      match t.kind with
      | .opening _ =>
        let region :=
          if o.inner.importCall then .importArguments
          else if t.text = "\x7b" && o.inner.classHead = some 0 then .classBody
          else .plain
        let head := if region = .classBody then none else o.inner.classHead
        { o with
          inner := .empty region t.span.start
          outer := { o.inner with importCall := false, classHead := head } :: o.outer }
      | .closing _ => passed (o.close t.span.stop)
      | .word => passed (o.word t ts)
      | .quoted =>
        passed
          (if o.inner.region = .importArguments && isWholeArgument o.inner.previous ts then
            o.add (literalNode none t)
          else o)
      | .punctuation =>
        passed
          { o with inner := { o.inner with classHead := o.inner.classHead.bind (angleDepth t) } }
      | _ => passed o

/-- The outline after all tokens. -/
def Outline.run (o : Outline) : List Token → Outline
  | [] => o
  | t :: ts => (o.step t ts).run ts

/-- The trees of an outline, brackets that are still open counted as closed at `stop`. -/
def closeAll (stop : Nat) (inner : Frame) : List Frame → List Node
  | [] => inner.found.reverse
  | f :: fs => closeAll stop { f with found := inner.node stop :: f.found } fs

/-- The tree of a declaration file. -/
def parse (cs : List Char) : Node :=
  let stop := (Utf8.encode cs).length
  let o := Outline.initial.run (tokens cs)
  .node { type := "program" } ⟨0, stop⟩ (closeAll stop o.inner o.outer)

end DeclBundle.Declaration
