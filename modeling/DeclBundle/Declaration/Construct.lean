import DeclBundle.Declaration.Syntax
import DeclBundle.Declaration.Token
set_option autoImplicit false

/-!
# Constructs of a declaration file

What bundling has to know about a declaration file: its import and export statements, the literals
that name modules, and the `declare` modifiers.  The functions here read one construct off the
tokens that follow its first word.
-/

namespace DeclBundle.Declaration

/-! ## Tokens as nodes -/

/-- A token as a node of a type. -/
def tokenNode (type : String) (t : Token) : Node :=
  .node { type } t.span []

/-- A name as a node. -/
def nameNode (field : Option String) (t : Token) : Node :=
  .node { type := "identifier", field } t.span []

/-- A literal as a node. -/
def literalNode (field : Option String) (t : Token) : Node :=
  .node { type := "string", field } t.span []

/-- A word or mark of the language as a node. -/
def wordNode (t : Token) : Node :=
  .node { type := t.text, isNamed := false } t.span []

/-! ## Ends of statements -/

/-- Where a statement ends that could end at `stop`: behind its semicolon if one comes next, else
behind the comments that begin on the rest of its line. -/
def commentsEnd (stop : Nat) : List Token → Nat
  | [] => stop
  | t :: ts => if t.isComment && !t.onNewLine then commentsEnd t.span.stop ts else stop

/-- Where a statement ends that could end at `stop`. -/
def statementEnd (stop : Nat) (ts : List Token) : Nat :=
  match nextToken? ts with
  | some t => if t.isMark ";" then t.span.stop else commentsEnd stop ts
  | none => commentsEnd stop ts

/-- The tokens from the closing bracket on that ends the innermost of `depth + 1` brackets. -/
def toClosing (depth : Nat) : List Token → List Token
  | [] => []
  | t :: ts =>
    match t.kind with
    | .opening _ => toClosing (depth + 1) ts
    | .closing _ =>
      match depth with
      | 0 => t :: ts
      | depth + 1 => toClosing depth ts
    | _ => toClosing depth ts

/-- What follows the attributes of an import, and where they end.  Attributes stand in braces
behind `with` or `assert` on the line where the source ends. -/
def attributes (stop : Nat) (ts : List Token) : Nat × List Token :=
  match nextOnLine? ts with
  | some t =>
    if t.isKeyword "with" || t.isKeyword "assert" then
      match afterComments ((afterComments ts).drop 1) with
      | b :: inner =>
        if b.opens "\x7b" then
          match toClosing 0 inner with
          | c :: rest => (c.span.stop, rest)
          | [] => (stop, ts)
        else (stop, ts)
      | [] => (stop, ts)
    else (stop, ts)
  | none => (stop, ts)

/-! ## Bindings -/

/-- The tokens between the commas of a list. -/
def commaPieces : List Token → List (List Token)
  | [] => [[]]
  | t :: ts =>
    if t.isMark "," then [] :: commaPieces ts
    else
      match commaPieces ts with
      | [] => [[t]]
      | piece :: pieces => (t :: piece) :: pieces

/-- An imported name, and the name that it gets if that is another. -/
def importSpecifier (name : Token) (other : Option Token) : Node :=
  .node { type := "import_specifier" } ⟨name.span.start, (other.getD name).span.stop⟩
    (nameNode (some "name") name :: other.toList.map (nameNode (some "alias")))

/-- One name of a list: with or without a word that marks it as a type, and with or without
another name behind `as`. -/
def importSpecifier? : List Token → Option Node
  | [name] => some (importSpecifier name none)
  | [_, name] => some (importSpecifier name none)
  | [name, _, other] => some (importSpecifier name (some other))
  | [_, name, _, other] => some (importSpecifier name (some other))
  | _ => none

/-- The names between the braces of an import, of which the first begins at `start`, and the tokens
after the braces. -/
def namedImports (start : Nat) (ts : List Token) : Node × List Token :=
  let inner := ts.takeWhile (!·.isClosing)
  let closing := ts.dropWhile (!·.isClosing)
  let stop := (closing.head?.or inner.getLast?).elim start (·.span.stop)
  (.node { type := "named_imports" } ⟨start, stop⟩
    ((commaPieces (inner.filter (!·.isComment))).filterMap importSpecifier?), closing.drop 1)

/-- The name behind `* as`, of which the star is given, and the tokens after it. -/
def namespaceImport (star : Token) (ts : List Token) : Node × List Token :=
  match afterComments ((afterComments ts).drop 1) with
  | name :: rest =>
    (.node { type := "namespace_import" } ⟨star.span.start, name.span.stop⟩ [nameNode none name],
      rest)
  | [] => (tokenNode "namespace_import" star, [])

/-- What an import binds between braces or behind a star, and the tokens after it. -/
def importBindings? (ts : List Token) : Option (Node × List Token) :=
  match afterComments ts with
  | t :: rest =>
    if t.opens "\x7b" then some (namedImports t.span.start rest)
    else if t.isMark "*" then some (namespaceImport t rest)
    else none
  | [] => none

/-- The clause with the given parts. -/
def importClause (first : Node) (others : List Node) : Node :=
  .node { type := "import_clause" } ⟨first.start, (others.getLast?.getD first).stop⟩
    (first :: others)

/-- What stands between `import` and `from`, and the tokens after it. -/
def importClause? (ts : List Token) : Option (Node × List Token) :=
  match afterComments ts with
  | t :: rest =>
    if t.isWord then
      match afterComments rest with
      | c :: more =>
        if c.isMark "," then
          (importBindings? more).map fun (n, rest) => (importClause (nameNode none t) [n], rest)
        else some (importClause (nameNode none t) [], rest)
      | [] => none
    else (importBindings? ts).map fun (n, rest) => (importClause n [], rest)
  | [] => none

/-- The literal behind `from`, and the tokens after it. -/
def fromSource? (ts : List Token) : Option (Token × List Token) :=
  match afterComments ts with
  | f :: rest =>
    if f.isKeyword "from" then
      match afterComments rest with
      | s :: rest => if s.isQuoted then some (s, rest) else none
      | [] => none
    else none
  | [] => none

/-- The parts of `name = require('specifier')`: the name, the literal, the closing bracket and the
tokens after it. -/
def requireClause? (ts : List Token) : Option (Token × Token × Token × List Token) :=
  match afterComments ts with
  | name :: rest =>
    match afterComments rest with
    | eq :: rest =>
      match afterComments rest with
      | req :: rest =>
        match afterComments rest with
        | op :: rest =>
          match afterComments rest with
          | lit :: rest =>
            match afterComments rest with
            | cl :: rest =>
              if name.isWord && eq.isMark "=" && req.isKeyword "require" && op.opens "(" &&
                  lit.isQuoted && cl.isClosing then
                some (name, lit, cl, rest)
              else none
            | [] => none
          | [] => none
        | [] => none
      | [] => none
    | [] => none
  | [] => none

/-! ## Statements -/

/-- An import statement. -/
def importNode (start stop : Nat) (parts : List Node) : Node :=
  .node { type := "import_statement" } ⟨start, stop⟩ parts

/-- An import statement with a clause or a require clause, of which `ts` follows the word `import`
and, if it is there, the word that marks it as an import of types. -/
def importWithClause? (start : Nat) (ts : List Token) : Option Node :=
  let required :=
    (requireClause? ts).map fun (name, lit, cl, rest) =>
      let clause : Node :=
        .node { type := "import_require_clause" } ⟨name.span.start, cl.span.stop⟩
          [nameNode none name, literalNode (some "source") lit]
      let (stop, rest) := attributes cl.span.stop rest
      importNode start (statementEnd stop rest) [clause]
  required.or do
    let (clause, rest) ← importClause? ts
    let (lit, rest) ← fromSource? rest
    let (stop, rest) := attributes lit.span.stop rest
    some (importNode start (statementEnd stop rest) [clause, literalNode (some "source") lit])

/-- The import statement that begins with the word at `start`, if `ts` goes on as one. -/
def importStatement? (start : Nat) (ts : List Token) : Option Node :=
  match afterComments ts with
  | t :: rest =>
    if t.isQuoted then
      let (stop, after) := attributes t.span.stop rest
      some (importNode start (statementEnd stop after) [literalNode (some "source") t])
    else
      let typed :=
        if t.isKeyword "type" || t.isKeyword "typeof" then importWithClause? start rest else none
      typed.or (importWithClause? start ts)
  | [] => none

/-- The source literal of an export statement, of which `ts` follows the word `export`. -/
def exportSource? (ts : List Token) : Option Token :=
  let ts := afterComments ts
  let ts := if (ts.head?.any (·.isKeyword "type")) then afterComments (ts.drop 1) else ts
  match ts with
  | t :: rest =>
    if t.opens "\x7b" then (fromSource? ((toClosing 0 rest).drop 1)).map (·.1)
    else if t.isMark "*" then
      match afterComments rest with
      | a :: more =>
        if a.isKeyword "as" then
          ((fromSource? ((afterComments more).drop 1)).map (·.1))
        else (fromSource? rest).map (·.1)
      | [] => none
    else none
  | [] => none

/-- Whether a token may follow the word `export` in an export statement. -/
def mayFollowExport (t : Token) : Bool :=
  t.isWord || t.opens "\x7b" || t.isMark "*" || t.isMark "=" || t.isMark "@"

/-- An export statement. -/
def exportNode (span : Span) (parts : List Node) : Node :=
  .node { type := "export_statement" } span parts

/-- The export statement that begins with the given word, if `ts` goes on as one. -/
def exportStatement? (word : Token) (ts : List Token) : Option Node :=
  match nextToken? ts with
  | some t =>
    if mayFollowExport t then
      match exportSource? ts with
      | some lit =>
        some (exportNode ⟨word.span.start, lit.span.stop⟩ [literalNode (some "source") lit])
      | none => some (exportNode word.span [])
    else none
  | none => none

/-! ## The modifier `declare` -/

/-- The words that a declaration begins with. -/
def declarationWords : List String :=
  ["const", "let", "var", "using", "function", "class", "abstract", "enum", "interface", "type",
    "namespace", "module", "global", "import", "async", "declare"]

/-- The words that may join `declare`, as a name, with an operand behind it. -/
def joiningWords : List String :=
  ["in", "of", "instanceof", "as", "satisfies", "extends", "implements", "is"]

/-- A declaration behind `declare`. -/
def ambientNode (start stop : Nat) (parts : List Node) : Node :=
  .node { type := "ambient_declaration" } ⟨start, stop⟩ parts

/-- The declaration behind the word `declare`, if `ts` goes on as one, and where its first word
begins.  Its tree ends with that word; the comments before the word are trees of their own. -/
def ambientDeclaration? (word : Token) : List Token → Option (Node × Nat)
  | [] => none
  | t :: ts =>
    if t.onNewLine then none
    else if t.isComment then
      match ambientDeclaration? word ts with
      | some (.node l s (m :: rest), first) =>
        some (.node l s (m :: tokenNode "comment" t :: rest), first)
      | _ => none
    else if !(t.isWord && declarationWords.contains t.text) then none
    else if t.text = "declare" then
      (ambientDeclaration? t ts).map fun (inner, first) =>
        (ambientNode word.span.start inner.stop [wordNode word, inner], first)
    else
      some (ambientNode word.span.start t.span.stop [wordNode word, wordNode t], t.span.start)

/-- The words that may stand before `declare` in front of a field. -/
def fieldModifiers : List String :=
  ["public", "private", "protected", "static", "override", "readonly", "abstract", "accessor",
    "async", "declare"]

/-- Whether the word `declare` in a class body modifies the field that `ts` goes on with.  Before it
stands nothing, the end of another member or a modifier, and the name of the field follows on the
same line. -/
def modifiesField (previous : Option Token) (word : Token) (ts : List Token) : Bool :=
  let atStart :=
    match previous with
    | none => true
    | some p =>
      p.isMark ";" || p.isClosing || (p.isWord && fieldModifiers.contains p.text) ||
        (word.onNewLine && p.kind != .punctuation)
  match nextOnLine? ts with
  | some t =>
    let named :=
      if t.isWord then
        !joiningWords.contains t.text ||
          ((nextToken? ((afterComments ts).drop 1)).any fun u =>
            [":", ";", "?", "!", "="].any u.isMark || u.isClosing)
      else t.isQuoted || t.kind == .number
    (atStart || previous.any (·.isWord)) && named || atStart && t.opens "["
  | none => false

end DeclBundle.Declaration
