set_option autoImplicit false

/-!
# Tags of YAML

The tags of plain data, and the tag that the text of a plain scalar asks for: truth values,
numbers in several bases and notations, nulls, points in time and the two marks of mappings.
-/

namespace DeclBundle.Yaml.Tag

/-- What the tags of plain data begin with. -/
def core : String := "tag:yaml.org,2002:"

def text : String := core ++ "str"
def null : String := core ++ "null"
def boolean : String := core ++ "bool"
def integer : String := core ++ "int"
def float : String := core ++ "float"
def binary : String := core ++ "binary"
def timestamp : String := core ++ "timestamp"
def omap : String := core ++ "omap"
def pairs : String := core ++ "pairs"
def set : String := core ++ "set"
def sequence : String := core ++ "seq"
def mapping : String := core ++ "map"
def merge : String := core ++ "merge"
def value : String := core ++ "value"

/-! ## Forms of plain scalars -/

/-- The texts of truth values. -/
def truthWords : List (String × Bool) :=
  [("yes", true), ("Yes", true), ("YES", true), ("no", false), ("No", false), ("NO", false),
    ("true", true), ("True", true), ("TRUE", true), ("false", false), ("False", false),
    ("FALSE", false), ("on", true), ("On", true), ("ON", true), ("off", false), ("Off", false),
    ("OFF", false)]

/-- The texts of the null value. -/
def nullWords : List String := ["~", "null", "Null", "NULL", ""]

/-- The texts of the infinite number. -/
def infinityWords : List String := [".inf", ".Inf", ".INF"]

/-- The texts of what is no number. -/
def nanWords : List String := [".nan", ".NaN", ".NAN"]

/-- Whether a character may stand in a number after its first digit. -/
def isDigitOrBar (c : Char) : Bool := c.isDigit || c == '_'

/-- A text without a sign in front. -/
def withoutSign : List Char → List Char
  | '-' :: cs => cs
  | '+' :: cs => cs
  | cs => cs

/-- Whether a text is a digit of base sixty, as it stands behind a colon. -/
def isSixtieth : List Char → Bool
  | [c] => c.isDigit
  | [c, d] => '0' ≤ c && c ≤ '5' && d.isDigit
  | _ => false

/-- The texts between colons. -/
def colonParts : List Char → List (List Char)
  | [] => [[]]
  | c :: cs =>
    if c = ':' then [] :: colonParts cs
    else
      match colonParts cs with
      | [] => [[c]]
      | part :: parts => (c :: part) :: parts

/-- Whether a text is an integer in base sixty whose first digit satisfies `first`. -/
def isSixties (first : Char → Bool) (cs : List Char) : Bool :=
  match colonParts cs with
  | (c :: part) :: p :: parts => first c && part.all isDigitOrBar && (p :: parts).all isSixtieth
  | _ => false

/-- Whether a text is an integer. -/
def isInteger (cs : List Char) : Bool :=
  match withoutSign cs with
  | '0' :: 'b' :: c :: cs => (c :: cs).all fun c => c == '0' || c == '1' || c == '_'
  | '0' :: 'x' :: c :: cs =>
    (c :: cs).all fun c => c.isDigit || ('a' ≤ c && c ≤ 'f') || ('A' ≤ c && c ≤ 'F') || c == '_'
  | '0' :: cs => cs.all fun c => ('0' ≤ c && c ≤ '7') || c == '_'
  | c :: cs =>
    c.isDigit && (cs.all isDigitOrBar || isSixties (fun c => '1' ≤ c && c ≤ '9') (c :: cs))
  | [] => false

/-- Whether a text is nothing or an exponent with a sign. -/
def isExponentOrNothing : List Char → Bool
  | [] => true
  | e :: sign :: c :: cs =>
    (e == 'e' || e == 'E') && (sign == '-' || sign == '+') && (c :: cs).all Char.isDigit
  | _ => false

/-- Whether a text is a floating point number. -/
def isFloat (cs : List Char) : Bool :=
  let unsigned := withoutSign cs
  let whole := unsigned.takeWhile (· != '.')
  let fraction := (unsigned.dropWhile (· != '.')).drop 1
  let pointed := unsigned.contains '.'
  let afterDigits := fraction.dropWhile isDigitOrBar
  infinityWords.contains (.ofList unsigned) || nanWords.contains (.ofList cs) ||
    (pointed && (whole.head?.any Char.isDigit) &&
      ((whole.all isDigitOrBar && isExponentOrNothing afterDigits) ||
        (isSixties Char.isDigit whole && afterDigits.isEmpty))) ||
    (cs.head? == some '.' && fraction.head?.any Char.isDigit && isExponentOrNothing afterDigits)

/-- Whether a text begins with a number of digits between two bounds, and what follows them. -/
def digitRun (least most : Nat) (cs : List Char) : Option (List Char) :=
  let n := ((cs.take most).takeWhile Char.isDigit).length
  if least ≤ n then some (cs.drop n) else none

/-- What follows a character. -/
def after (c : Char) : List Char → Option (List Char)
  | d :: cs => if c = d then some cs else none
  | [] => none

/-- Whether a text is nothing or a time zone, blanks before it apart. -/
def isZoneOrNothing (cs : List Char) : Bool :=
  match cs.dropWhile fun c => c == ' ' || c == '\t' with
  | [] => cs.isEmpty
  | ['Z'] => true
  | sign :: rest =>
    (sign == '-' || sign == '+') &&
      match digitRun 1 2 rest with
      | some [] => true
      | some rest => ((after ':' rest).bind (digitRun 2 2)) == some []
      | none => false

/-- Whether a text is a date or a point in time. -/
def isTimestamp (cs : List Char) : Bool :=
  let date (least : Nat) : Option (List Char) := do
    let cs ← digitRun 4 4 cs
    let cs ← digitRun least 2 (← after '-' cs)
    digitRun least 2 (← after '-' cs)
  let time : Option (List Char) := do
    let cs ← date 1
    let blanks := cs.takeWhile fun c => c == ' ' || c == '\t'
    let cs ←
      match cs with
      | 'T' :: cs => some cs
      | 't' :: cs => some cs
      | _ => if blanks.isEmpty then none else some (cs.drop blanks.length)
    let cs ← digitRun 1 2 cs
    let cs ← digitRun 2 2 (← after ':' cs)
    let cs ← digitRun 2 2 (← after ':' cs)
    match cs with
    | '.' :: cs => some (cs.dropWhile Char.isDigit)
    | _ => some cs
  date 2 == some [] || time.any isZoneOrNothing

/-- The tag that the text of a plain scalar asks for. -/
def ofPlain (s : String) : String :=
  let cs := s.toList
  if nullWords.contains s then null
  else if (truthWords.lookup s).isSome then boolean
  else if isInteger cs then integer
  else if isFloat cs then float
  else if isTimestamp cs then timestamp
  else if s = "<<" then merge
  else if s = "=" then value
  else text

end DeclBundle.Yaml.Tag
