import DeclBundle.Data.Value
import DeclBundle.Json.Fault
import DeclBundle.Text.Lines
set_option autoImplicit false

/-!
# Reading JSON

A reader of JSON texts that says what is wrong and where.  Beside the numbers of JSON it reads the
words `NaN`, `Infinity` and `-Infinity`.  A number without fraction and exponent is an integer of
any size.
-/

namespace DeclBundle.Json

open Data (Value)

/-- What is left of a text, and the number of characters before it. -/
structure Cursor where
  position : Nat
  rest : List Char
  deriving DecidableEq, Repr

/-- A cursor some characters on. -/
def Cursor.advance (c : Cursor) (n : Nat) : Cursor :=
  ⟨c.position + n, c.rest.drop n⟩

/-- A fault at a cursor. -/
def Cursor.fail {α : Type} (c : Cursor) (p : Problem) : Except Fault α :=
  .error ⟨p, c.position⟩

/-- The blanks of JSON. -/
def isBlank (c : Char) : Bool :=
  c == ' ' || c == '\t' || c == '\n' || c == '\r'

/-- The cursor behind the blanks. -/
def Cursor.skipBlank (c : Cursor) : Cursor :=
  c.advance (c.rest.takeWhile isBlank).length

/-! ## Strings -/

/-- The value of a hexadecimal digit. -/
def hexDigit? (c : Char) : Option Nat :=
  if c.isDigit then some (c.toNat - 48)
  else if 'a' ≤ c && c ≤ 'f' then some (c.toNat - 87)
  else if 'A' ≤ c && c ≤ 'F' then some (c.toNat - 55)
  else none

/-- The number that four hexadecimal digits stand for. -/
def fourHex? (a b c d : Char) : Option Nat := do
  let a ← hexDigit? a
  let b ← hexDigit? b
  let c ← hexDigit? c
  let d ← hexDigit? d
  return ((a * 16 + b) * 16 + c) * 16 + d

/-- The character that a letter stands for behind a backslash. -/
def escaped? (c : Char) : Option Char :=
  if c = '"' || c = '\\' || c = '/' then some c
  else if c = 'b' then some '\x08'
  else if c = 'f' then some '\x0c'
  else if c = 'n' then some '\n'
  else if c = 'r' then some '\r'
  else if c = 't' then some '\t'
  else none

/-- Whether a code is the first half of a pair. -/
def isHighHalf (n : Nat) : Bool := 0xD800 ≤ n && n < 0xDC00

/-- Whether a code is the second half of a pair. -/
def isLowHalf (n : Nat) : Bool := 0xDC00 ≤ n && n < 0xE000

/-- The character of a code; half of a pair alone is no character. -/
def charOfCode (n : Nat) : Char :=
  if isHighHalf n || isLowHalf n then '\ufffd' else .ofNat n

/-- The characters of a string up to its closing quote, and the cursor behind the quote.  The
string opened at `opened`. -/
def stringFrom (opened position : Nat) : List Char → Except Fault (List Char × Cursor)
  | [] => .error ⟨.unterminatedString, opened⟩
  | '"' :: cs => .ok ([], ⟨position + 1, cs⟩)
  | ['\\'] => .error ⟨.unterminatedString, opened⟩
  | '\\' :: 'u' :: a :: b :: c :: d :: '\\' :: 'u' :: a' :: b' :: c' :: d' :: e :: cs => do
    match fourHex? a b c d with
    | none => .error ⟨.invalidUnicodeEscape, position + 1⟩
    | some n =>
      let second := '\\' :: 'u' :: a' :: b' :: c' :: d' :: e :: cs
      if isHighHalf n then
        match fourHex? a' b' c' d' with
        | none => .error ⟨.invalidUnicodeEscape, position + 7⟩
        | some m =>
          if isLowHalf m then
            let (rest, k) ← stringFrom opened (position + 12) (e :: cs)
            .ok (.ofNat (0x10000 + (n - 0xD800) * 0x400 + (m - 0xDC00)) :: rest, k)
          else
            let (rest, k) ← stringFrom opened (position + 6) second
            .ok (charOfCode n :: rest, k)
      else
        let (rest, k) ← stringFrom opened (position + 6) second
        .ok (charOfCode n :: rest, k)
  | '\\' :: 'u' :: a :: b :: c :: d :: e :: cs =>
    match fourHex? a b c d with
    | none => .error ⟨.invalidUnicodeEscape, position + 1⟩
    | some n => do
      let (rest, k) ← stringFrom opened (position + 6) (e :: cs)
      .ok (charOfCode n :: rest, k)
  | '\\' :: 'u' :: _ => .error ⟨.invalidUnicodeEscape, position + 1⟩
  | '\\' :: c :: cs =>
    match escaped? c with
    | none => .error ⟨.invalidEscape, position⟩
    | some c => do
      let (rest, k) ← stringFrom opened (position + 2) cs
      .ok (c :: rest, k)
  | c :: cs =>
    if c.toNat ≤ 0x1F then .error ⟨.controlCharacter, position⟩
    else do
      let (rest, k) ← stringFrom opened (position + 1) cs
      .ok (c :: rest, k)

/-- The string that opens at a cursor. -/
def string (c : Cursor) : Except Fault (String × Cursor) := do
  let (cs, k) ← stringFrom c.position (c.position + 1) (c.rest.drop 1)
  return (.ofList cs, k)

/-! ## Numbers -/

/-- The number that a run of ASCII digits stands for. -/
def natOfDigits (cs : List Char) : Nat :=
  cs.foldl (fun n c => n * 10 + (c.toNat - 48)) 0

/-- The digits at the beginning of a text, and the rest. -/
def spanDigits (cs : List Char) : List Char × List Char :=
  (cs.takeWhile Char.isDigit, cs.dropWhile Char.isDigit)

/-- The digits of a fraction and the rest, if a point and a digit come first. -/
def fraction (cs : List Char) : List Char × List Char :=
  match cs with
  | '.' :: ds =>
    match spanDigits ds with
    | ([], _) => ([], cs)
    | r => r
  | _ => ([], cs)

/-- The exponent and the rest, if a whole exponent comes first. -/
def exponent? (cs : List Char) : Option (Int × List Char) :=
  match cs with
  | e :: ds =>
    if e = 'e' || e = 'E' then
      let (negative, ds) :=
        match ds with
        | '-' :: r => (true, r)
        | '+' :: r => (false, r)
        | r => (false, r)
      match spanDigits ds with
      | ([], _) => none
      | (digits, rest) =>
        let n : Int := natOfDigits digits
        some (if negative then -n else n, rest)
    else none
  | [] => none

/-- The digits before the point and the rest: a zero alone, or digits that begin with another. -/
def wholeDigits? (cs : List Char) : Option (List Char × List Char) :=
  match cs with
  | c :: rest =>
    if c = '0' then some ([c], rest) else if c.isDigit then some (spanDigits cs) else none
  | [] => none

/-- The number that begins a text, and the rest. -/
def number? (cs : List Char) : Option (Value × List Char) :=
  let (negative, body) :=
    match cs with
    | '-' :: r => (true, r)
    | r => (false, r)
  match wholeDigits? body with
  | none => none
  | some (whole, rest) =>
    let (decimals, rest) := fraction rest
    let exponent := exponent? rest
    if decimals.isEmpty && exponent.isNone then
      let n : Int := natOfDigits whole
      some (.integer (if negative then -n else n), rest)
    else
      let (power, rest) := exponent.getD (0, rest)
      some (.number (.ofDecimal negative (natOfDigits (whole ++ decimals))
        (power - decimals.length)), rest)

/-! ## Values -/

/-- The words that stand for values. -/
def words : List (String × Value) :=
  [("null", .null), ("true", .boolean true), ("false", .boolean false), ("NaN", .number .nan),
    ("Infinity", .number (.infinity false)), ("-Infinity", .number (.infinity true))]

/-- The word or number at a cursor. -/
def atom (c : Cursor) : Except Fault (Value × Cursor) :=
  match words.findSome? fun (w, v) => (Text.afterStart? w.toList c.rest).map fun r => (v, r) with
  | some (v, rest) => .ok (v, ⟨c.position + (c.rest.length - rest.length), rest⟩)
  | none =>
    match number? c.rest with
    | some (v, rest) => .ok (v, ⟨c.position + (c.rest.length - rest.length), rest⟩)
    | none => c.fail .expectingValue

mutual

/-- The value at a cursor; the number bounds how deep values and their parts are nested. -/
def value : Nat → Cursor → Except Fault (Value × Cursor)
  | 0, c => c.fail .expectingValue
  | fuel + 1, c =>
    match c.rest with
    | '"' :: _ => do
      let (s, c) ← string c
      return (.text s, c)
    | '{' :: _ => do
      let c := (c.advance 1).skipBlank
      if c.rest.head? = some '}' then return (.mapping [], c.advance 1)
      let (ms, c) ← members fuel c
      return (.mapping ms, c)
    | '[' :: _ => do
      let c := (c.advance 1).skipBlank
      if c.rest.head? = some ']' then return (.list [], c.advance 1)
      let (vs, c) ← elements fuel c
      return (.list vs, c)
    | _ => atom c

/-- The members of an object from a cursor on. -/
def members : Nat → Cursor → Except Fault (List (Value × Value) × Cursor)
  | 0, c => c.fail .expectingProperty
  | fuel + 1, c => do
    if c.rest.head? != some '"' then c.fail .expectingProperty
    else
      let (key, c) ← string c
      let c := c.skipBlank
      if c.rest.head? != some ':' then c.fail .expectingColon
      else
        let (v, c) ← value fuel (c.advance 1).skipBlank
        let c := c.skipBlank
        match c.rest with
        | '}' :: _ => return ([(.text key, v)], c.advance 1)
        | ',' :: _ => do
          let (ms, c) ← members fuel (c.advance 1).skipBlank
          return ((.text key, v) :: ms, c)
        | _ => c.fail .expectingComma

/-- The elements of an array from a cursor on. -/
def elements : Nat → Cursor → Except Fault (List Value × Cursor)
  | 0, c => c.fail .expectingValue
  | fuel + 1, c => do
    let (v, c) ← value fuel c
    let c := c.skipBlank
    match c.rest with
    | ']' :: _ => return ([v], c.advance 1)
    | ',' :: _ => do
      let (vs, c) ← elements fuel (c.advance 1).skipBlank
      return (v :: vs, c)
    | _ => c.fail .expectingComma

end

/-- The value of a JSON text. -/
def parse (cs : List Char) : Except Fault Value := do
  if cs.head? = some '\ufeff' then .error ⟨.byteOrderMark, 0⟩
  else
    let (v, c) ← value (2 * cs.length + 2) (Cursor.mk 0 cs).skipBlank
    let c := c.skipBlank
    if c.rest.isEmpty then return v else c.fail .extraData

end DeclBundle.Json
