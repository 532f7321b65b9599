set_option autoImplicit false

/-!
# Faults in JSON texts

What is wrong with a JSON text and where, counted in characters.
-/

namespace DeclBundle.Json

/-- What is wrong with a JSON text. -/
inductive Problem where
  | byteOrderMark
  | expectingValue
  | expectingProperty
  | expectingColon
  | expectingComma
  | extraData
  | controlCharacter
  | unterminatedString
  | invalidEscape
  | invalidUnicodeEscape
  deriving DecidableEq, Repr

/-- The words for a problem. -/
def Problem.words : Problem → String
  | .byteOrderMark => "Unexpected UTF-8 BOM (decode using utf-8-sig)"
  | .expectingValue => "Expecting value"
  | .expectingProperty => "Expecting property name enclosed in double quotes"
  | .expectingColon => "Expecting ':' delimiter"
  | .expectingComma => "Expecting ',' delimiter"
  | .extraData => "Extra data"
  | .controlCharacter => "Invalid control character at"
  | .unterminatedString => "Unterminated string starting at"
  | .invalidEscape => "Invalid \\escape"
  | .invalidUnicodeEscape => "Invalid \\uXXXX escape"

/-- A problem and the number of characters before it. -/
structure Fault where
  problem : Problem
  position : Nat
  deriving DecidableEq, Repr

/-- The words for a fault in a text, with line and column counted from one. -/
def Fault.message (f : Fault) (text : List Char) : String :=
  let before := text.take f.position
  let line := before.count '\n' + 1
  let column := (before.reverse.takeWhile (· != '\n')).length + 1
  f.problem.words ++ ": line " ++ toString line ++ " column " ++ toString column ++ " (char " ++
    toString f.position ++ ")"

end DeclBundle.Json
