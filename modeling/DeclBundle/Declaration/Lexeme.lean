import DeclBundle.Text.Lines
set_option autoImplicit false

/-!
# Lexemes of declaration text

A declaration text is cut into lexemes: blanks, comments, words, literals, brackets and
punctuation.  Nothing is dropped, so the lexemes joined are the text again (`flatMap_lex`).  Two
facts about what stands before decide how a character is read: whether an operand has just ended
(then a slash divides, otherwise it opens a regular expression) and which brackets are open (a
closing brace may end the code inside a template).
-/

namespace DeclBundle.Declaration

open Text

/-! ## Classes of characters -/

/-- The characters that separate lexemes. -/
def isSeparator (c : Char) : Bool :=
  let n := c.toNat
  isAsciiBlank c || n == 0xA0 || n == 0x1680 || (0x2000 ≤ n && n ≤ 0x200B) || n == 0x2028 ||
    n == 0x2029 || n == 0x202F || n == 0x205F || n == 0x2060 || n == 0x3000 || n == 0xFEFF

/-- The characters that end a line comment. -/
def endsLineComment (c : Char) : Bool :=
  c == '\n' || c == '\r' || c == '\u2028' || c == '\u2029'

/-- The characters that a word may hold: all but separators, controls and the punctuation of
ASCII, of which the dollar sign, the low line and the backslash of an escape may stand in words. -/
def isWordChar (c : Char) : Bool :=
  let n := c.toNat
  if n < 0x80 then c.isAlphanum || c == '_' || c == '$' || c == '\\'
  else !isSeparator c && 0xA0 ≤ n

/-- The characters that a word may begin with. -/
def startsWord (c : Char) : Bool :=
  isWordChar c && !c.isDigit

/-! ## Kinds of lexemes -/

/-- The brackets of the language. -/
inductive Bracket where
  /-- round, around the condition of a statement (`head`) or around anything else -/
  | round (head : Bool)
  /-- square -/
  | square
  /-- a brace, around the members of a value (`value`) or around statements, members of a
  declaration or a type -/
  | brace (value : Bool)
  /-- the braces around code in a template -/
  | substitution
  deriving DecidableEq, Repr

/-- What a lexeme is. -/
inductive Kind where
  | blank
  | lineComment
  | blockComment
  | word
  | quoted
  | number
  /-- the literal part of a template, with the mark that opens or ends it; code may follow -/
  | template (codeFollows : Bool)
  | regex
  | opening (bracket : Bracket)
  /-- a closing bracket and the bracket that it closes, if one is open -/
  | closing (bracket : Option Bracket)
  | punctuation
  deriving DecidableEq, Repr

/-- A piece of the text and what it is. -/
structure Lexeme where
  kind : Kind
  text : List Char
  deriving DecidableEq, Repr

/-- Whether a lexeme has a meaning of its own, unlike blanks and comments. -/
def Kind.isSignificant : Kind → Bool
  | .blank | .lineComment | .blockComment => false
  | _ => true

/-! ## What stands before -/

/-- What decides how the next character is read. -/
structure Context where
  /-- the brackets that are open, the innermost first -/
  brackets : List Bracket
  /-- whether the text stands in the literal part of a template -/
  inTemplate : Bool
  /-- whether an operand has just ended -/
  afterOperand : Bool
  /-- whether a round bracket would hold the condition of a statement -/
  beforeHead : Bool
  /-- the last significant lexeme -/
  previous : Option Lexeme

/-- The context at the beginning of a text. -/
def Context.initial : Context := ⟨[], false, false, false, none⟩

/-- The words after which an operand is yet to come. -/
def operatorWords : List String :=
  ["return", "typeof", "instanceof", "in", "of", "new", "delete", "void", "throw", "case", "do",
    "else", "await", "yield", "default", "extends"]

/-- The words that are followed by a condition in round brackets. -/
def headWords : List String :=
  ["if", "while", "for", "with"]

/-- Whether a lexeme selects a member of what stands before it. -/
def Lexeme.isSelector (l : Lexeme) : Bool :=
  l.kind == .punctuation && (l.text == ['.'] || l.text == ['?', '.'])

/-- Whether a brace here opens a value: an operator, an opening bracket or a word that waits for
an operand stands before it. -/
def Context.valueBrace (ctx : Context) : Bool :=
  match ctx.previous with
  | none => false
  | some l =>
    match l.kind with
    | .opening (.brace _) => false
    | .opening _ => true
    | .closing _ => false
    | .punctuation => l.text != [';'] && l.text != ['=', '>']
    | .word =>
      !ctx.afterOperand && String.ofList l.text != "do" && String.ofList l.text != "else"
    | _ => false

/-- The context after a lexeme. -/
def Context.after (ctx : Context) (l : Lexeme) : Context :=
  match l.kind with
  | .blank | .lineComment | .blockComment => ctx
  | .word =>
    let text := String.ofList l.text
    let member := ctx.previous.any Lexeme.isSelector
    { ctx with
      afterOperand := member || !operatorWords.contains text
      beforeHead := !member && (headWords.contains text || (text == "await" && ctx.beforeHead))
      previous := some l }
  | .quoted | .number | .regex =>
    { ctx with afterOperand := true, beforeHead := false, previous := some l }
  | .template codeFollows =>
    { ctx with
      inTemplate := codeFollows
      afterOperand := true
      beforeHead := false
      previous := some l }
  | .opening b =>
    { ctx with
      brackets := b :: ctx.brackets, inTemplate := false, afterOperand := false,
      beforeHead := false, previous := some l }
  | .closing b =>
    { ctx with
      brackets := ctx.brackets.drop 1
      inTemplate := b == some .substitution
      afterOperand := b != some (.round true) && b != some (.brace false)
      beforeHead := false
      previous := some l }
  | .punctuation =>
    { ctx with
      afterOperand :=
        (l.text == ['+', '+'] || l.text == ['-', '-'] || l.text == ['!']) && ctx.afterOperand
      beforeHead := false
      previous := some l }

/-! ## Lengths of lexemes

Each function gives the number of characters of a lexeme that begins where the list begins. -/

/-- The length of the longest beginning whose characters satisfy `p`. -/
def runLength (p : Char → Bool) (cs : List Char) : Nat :=
  (cs.takeWhile p).length

/-- The length up to and with the mark that ends a block comment. -/
def blockCommentLength : List Char → Nat
  | [] => 0
  | '*' :: '/' :: _ => 2
  | _ :: cs => blockCommentLength cs + 1

/-- The length of a quoted literal after its opening quote.  A backslash takes the next character
with it; a line end that is not escaped ends the literal. -/
def quotedLength (mark : Char) : List Char → Nat
  | [] => 0
  | ['\\'] => 1
  | '\\' :: '\r' :: '\n' :: cs => quotedLength mark cs + 3
  | '\\' :: _ :: cs => quotedLength mark cs + 2
  | c :: cs => if c = mark then 1 else if c = '\n' then 0 else quotedLength mark cs + 1

/-- The length of the literal part of a template: up to and with the mark that ends the template,
or up to code. -/
def templateLength : List Char → Nat
  | [] => 0
  | ['\\'] => 1
  | '\\' :: _ :: cs => templateLength cs + 2
  | '$' :: '{' :: _ => 0
  | c :: cs => if c = '`' then 1 else templateLength cs + 1

/-- The length of a regular expression after its opening slash, if it ends on the line. -/
def regexLength? (inClass : Bool) : List Char → Option Nat
  | [] => none
  | ['\\'] => none
  | '\\' :: c :: cs => if c = '\n' then none else (regexLength? inClass cs).map (· + 2)
  | c :: cs =>
    if c = '\n' then none
    else if c = '/' && !inClass then some (1 + runLength isWordChar cs)
    else
      (regexLength? (if c = '[' then true else if c = ']' then false else inClass) cs).map (· + 1)

/-- The length of a number: its digits and letters, the points and the signs of exponents. -/
def numberLength (hex : Bool) : List Char → Nat
  | [] => 0
  | [c] => if isWordChar c || c == '.' then 1 else 0
  | c :: d :: cs =>
    if !hex && (c == 'e' || c == 'E') && (d == '+' || d == '-') then numberLength hex cs + 2
    else if isWordChar c || (c == '.' && d.isDigit) then numberLength hex (d :: cs) + 1
    else if c == '.' && !(startsWord d || d == '.') then 1
    else 0

/-- The length of punctuation. -/
def punctuationLength : List Char → Nat
  | '=' :: '>' :: _ => 2
  | '?' :: '.' :: c :: _ => if c.isDigit then 1 else 2
  | '.' :: '.' :: '.' :: _ => 3
  | '+' :: '+' :: _ => 2
  | '-' :: '-' :: _ => 2
  | _ => 1

/-! ## The next lexeme -/

/-- A literal part of a template of `n` characters, and whether code follows it. -/
def templatePart (cs : List Char) (n : Nat) : Kind × Nat :=
  (.template (['$', '{'].isPrefixOf (cs.drop n)), n)

/-- The kind and the length of the lexeme that begins with the character `c` before `cs`. -/
def recognize (ctx : Context) (c : Char) (cs : List Char) : Kind × Nat :=
  if ctx.inTemplate then
    if c = '$' && cs.head? = some '{' then (.opening .substitution, 2)
    else templatePart (c :: cs) (templateLength (c :: cs))
  else if isSeparator c then (.blank, 1 + runLength isSeparator cs)
  else if c = '/' && cs.head? = some '/' then
    (.lineComment, 1 + runLength (!endsLineComment ·) cs)
  else if c = '/' && cs.head? = some '*' then (.blockComment, 2 + blockCommentLength (cs.drop 1))
  else if c = '#' && cs.head? = some '!' && ctx.previous.isNone then
    (.lineComment, 1 + runLength (!endsLineComment ·) cs)
  else if startsWord c then (.word, 1 + runLength isWordChar cs)
  else if c = '#' && cs.head?.any startsWord then (.word, 1 + runLength isWordChar cs)
  else if c = '\'' || c = '"' then (.quoted, 1 + quotedLength c cs)
  else if c = '`' then templatePart (c :: cs) (1 + templateLength cs)
  else if c.isDigit || (c = '.' && cs.head?.any Char.isDigit) then
    let hex := c == '0' && cs.head?.any fun d => d == 'x' || d == 'X'
    (.number, 1 + numberLength hex cs)
  else if c = '/' && !ctx.afterOperand then
    match regexLength? false cs with
    | some n => (.regex, 1 + n)
    | none => (.punctuation, 1)
  else if c = '(' then (.opening (.round ctx.beforeHead), 1)
  else if c = '[' then (.opening .square, 1)
  else if c = '{' then (.opening (.brace ctx.valueBrace), 1)
  else if c = ')' || c = ']' || c = '}' then (.closing ctx.brackets.head?, 1)
  else (.punctuation, punctuationLength (c :: cs))

/-- The lexemes of a text, at most `fuel` of them. -/
def lexUpTo : Nat → Context → List Char → List Lexeme
  | 0, _, _ => []
  | _ + 1, _, [] => []
  | fuel + 1, ctx, c :: cs =>
    let (kind, length) := recognize ctx c cs
    let l : Lexeme := ⟨kind, c :: cs.take (length - 1)⟩
    l :: lexUpTo fuel (ctx.after l) (cs.drop (length - 1))

/-- The lexemes of a text. -/
def lex (cs : List Char) : List Lexeme :=
  lexUpTo cs.length .initial cs

theorem flatMap_lexUpTo (fuel : Nat) (ctx : Context) (cs : List Char) (h : cs.length ≤ fuel) :
    (lexUpTo fuel ctx cs).flatMap Lexeme.text = cs := by
  induction fuel generalizing ctx cs with
  | zero =>
    have : cs = [] := List.length_eq_zero_iff.1 (by omega)
    simp [lexUpTo, this]
  | succ fuel ih =>
    cases cs with
    | nil => simp [lexUpTo]
    | cons c cs =>
      simp only [lexUpTo, List.flatMap_cons]
      rw [ih]
      · simp [List.take_append_drop]
      · simp only [List.length_drop, List.length_cons] at *
        omega

/-- The lexemes of a text joined are the text. -/
theorem flatMap_lex (cs : List Char) : (lex cs).flatMap Lexeme.text = cs :=
  flatMap_lexUpTo _ _ _ (Nat.le_refl _)

end DeclBundle.Declaration
