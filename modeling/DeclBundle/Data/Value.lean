import DeclBundle.Number.Shortest
set_option autoImplicit false

/-!
# Values of configuration files

What a configuration file can hold, whatever it is written in, and how settings are taken from it:
a text, a number or a list of such, with everything of another kind left out.
-/

namespace DeclBundle.Data

/-- A value of a configuration file. -/
inductive Value where
  | null
  | boolean (b : Bool)
  | integer (n : Int)
  | number (x : Binary64)
  | text (s : String)
  | bytes (bs : List UInt8)
  /-- a date or a point in time -/
  | moment
  | list (items : List Value)
  | mapping (members : List (Value × Value))
  | set (items : List Value)

/-- Reads the data that a text holds, or says why it holds none. -/
abbrev Reader := List Char → Except String Value

namespace Value

/-- The text of a text or a number; nothing else has one. -/
def asText? : Value → Option String
  | text s => some s
  | integer n => some (toString n)
  | number x => some x.text
  | _ => none

/-- The text that an item of a list has: texts, numbers and truth values have one. -/
def itemText? : Value → Option String
  | boolean b => some (if b then "True" else "False")
  | v => v.asText?

/-- The texts of a list.  A text alone is a list of one; bytes are a list of numbers. -/
def asTexts : Value → List String
  | text s => [s]
  | list items => items.filterMap itemText?
  | bytes bs => bs.map fun b => toString b.toNat
  | _ => []

/-- Whether a value counts as true: all do but nulls, zeros and what is empty. -/
def isTruthy : Value → Bool
  | null => false
  | boolean b => b
  | integer n => n != 0
  | number x => !x.isZero
  | text s => s != ""
  | bytes bs => !bs.isEmpty
  | moment => true
  | list items => !items.isEmpty
  | mapping members => !members.isEmpty
  | set items => !items.isEmpty

/-- The members of a mapping; other values have none. -/
def members : Value → List (Value × Value)
  | mapping ms => ms
  | _ => []

/-- Whether a value is the given text. -/
def isText (key : String) : Value → Bool
  | text s => s == key
  | _ => false

/-- What the members of a mapping give for a key: the last one that has it counts. -/
def member? (ms : List (Value × Value)) (key : String) : Option Value :=
  (ms.reverse.find? fun m => m.1.isText key).map (·.2)

/-- The text that the members of a mapping give for a key. -/
def memberText? (ms : List (Value × Value)) (key : String) : Option String :=
  (member? ms key).bind asText?

/-- The texts that the members of a mapping give for a key. -/
def memberTexts (ms : List (Value × Value)) (key : String) : List String :=
  ((member? ms key).map asTexts).getD []

end Value

end DeclBundle.Data
