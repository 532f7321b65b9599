import DeclBundle.Data.Value
import DeclBundle.Yaml.Node
set_option autoImplicit false

/-!
# The value of a YAML document

What the nodes of a document mean as plain data.  A node whose tag has no meaning here, or which
does not fit its tag, makes the document a fault.
-/

namespace DeclBundle.Yaml

open Data (Value)

/-! ## Numbers -/

/-- A text without low lines, which may stand between digits. -/
def withoutBars (cs : List Char) : List Char :=
  cs.filter (· != '_')

/-- The number that digits of a base stand for. -/
def natOfBase? (base : Nat) (cs : List Char) : Option Nat :=
  if cs.isEmpty then none
  else
    cs.foldlM (fun n c =>
      match hexValue? c with
      | some d => if d < base then some (n * base + d) else none
      | none => none) 0

/-- The number that a text of digits without a sign stands for. -/
def unsignedInteger? (cs : List Char) : Option Nat :=
  match cs with
  | ['0'] => some 0
  | '0' :: 'b' :: cs => natOfBase? 2 cs
  | '0' :: 'x' :: cs => natOfBase? 16 cs
  | '0' :: _ => natOfBase? 8 cs
  | _ =>
    (Tag.colonParts cs).foldlM (fun n part => (natOfBase? 10 part).map (n * 60 + ·)) 0

/-- Whether a text has a minus in front. -/
def isNegative (cs : List Char) : Bool :=
  cs.head? == some '-'

/-- The integer that a text stands for. -/
def integer? (cs : List Char) : Option Int :=
  let cs := withoutBars cs
  (unsignedInteger? (Tag.withoutSign cs)).map fun n =>
    if isNegative cs then -(n : Int) else n

/-- The decimal that a text without a sign stands for. -/
def decimal? (negative : Bool) (cs : List Char) : Option Binary64 := do
  let mantissa := cs.takeWhile fun c => c != 'e' && c != 'E'
  let power := (cs.drop mantissa.length).drop 1
  let whole := mantissa.takeWhile (· != '.')
  let decimals := (mantissa.drop whole.length).drop 1
  let digits ← natOfBase? 10 (whole ++ decimals)
  let exponent ← if cs.length = mantissa.length then some 0 else integer? power
  return .ofDecimal negative digits (exponent - decimals.length)

/-- The number with its sign turned round. -/
def negated : Binary64 → Binary64
  | .finite s m e => .finite (!s) m e
  | .infinity s => .infinity (!s)
  | .nan => .nan

/-- The number that digits of base sixty stand for, the last one first. -/
def sixties? (base : Nat) (sum : Binary64) : List (List Char) → Option Binary64
  | [] => some sum
  | part :: parts => do
    let d ← decimal? false part
    sixties? (base * 60) (d.mulAddNat base sum) parts

/-- The floating point number that a text stands for. -/
def float? (cs : List Char) : Option Binary64 :=
  let cs := withoutBars cs
  let unsigned := Tag.withoutSign cs
  let negative := isNegative cs
  if Tag.infinityWords.contains (.ofList unsigned) then some (.infinity negative)
  else if Tag.nanWords.contains (.ofList unsigned) then some .nan
  else if unsigned.contains ':' then
    (sixties? 1 (.finite false 0 0) (Tag.colonParts unsigned).reverse).map fun x =>
      if negative then negated x else x
  else decimal? negative unsigned

/-! ## Bytes -/

/-- The value of a character that stands for six bits. -/
def sixBits? (c : Char) : Option Nat :=
  if 'A' ≤ c && c ≤ 'Z' then some (c.toNat - 65)
  else if 'a' ≤ c && c ≤ 'z' then some (c.toNat - 71)
  else if c.isDigit then some (c.toNat + 4)
  else if c = '+' then some 62
  else if c = '/' then some 63
  else none

/-- The bytes that a text stands for, six bits a character.  Of a group of four, `place` characters
have been read, `left` bits of which wait for the next, and `pads` marks that fill it up.  Other
characters do not count. -/
def bytesFrom (place left pads : Nat) : List Char → Option (List UInt8)
  | [] => if place = 0 then some [] else none
  | c :: cs =>
    if c = '=' then
      if 2 ≤ place && 4 ≤ place + pads + 1 then some []
      else bytesFrom place left (if 2 ≤ place then pads + 1 else pads) cs
    else
      match sixBits? c with
      | none => bytesFrom place left pads cs
      | some d =>
        match place with
        | 0 => bytesFrom 1 d 0 cs
        | 1 => (bytesFrom 2 (d % 16) 0 cs).map (UInt8.ofNat (left * 4 + d / 16) :: ·)
        | 2 => (bytesFrom 3 (d % 4) 0 cs).map (UInt8.ofNat (left * 16 + d / 4) :: ·)
        | _ => (bytesFrom 0 0 0 cs).map (UInt8.ofNat (left * 64 + d) :: ·)

/-! ## Nodes -/

/-- What a node that may be missing gives, or a fault of its tag. -/
def orBadTag {α : Type} : Option α → Result α
  | some a => .ok a
  | none => .error .badTag

/-- The text of a scalar, or of the member of a mapping that is marked as its value. -/
def Node.scalarText : Node → Result String
  | .scalar _ text => .ok text
  | .mapping _ ms =>
    match ms.findSome? fun m =>
        match m with
        | (.scalar tag _, .scalar _ text) => if tag = Tag.value then some text else none
        | _ => none with
    | some text => .ok text
    | none => .error .badTag
  | _ => .error .badTag

/-- The value of a scalar with a tag. -/
def scalarValue (tag text : String) : Result Value :=
  let cs := text.toList
  if tag = Tag.text then .ok (.text text)
  else if tag = Tag.null then .ok .null
  else if tag = Tag.boolean then
    orBadTag ((Tag.truthWords.find? fun w => w.1 == text.toLower).map (.boolean ·.2))
  else if tag = Tag.integer then orBadTag ((integer? cs).map .integer)
  else if tag = Tag.float then orBadTag ((float? cs).map .number)
  else if tag = Tag.binary then
    if cs.all (·.toNat < 0x80) then orBadTag ((bytesFrom 0 0 0 cs).map .bytes) else .error .badTag
  else if tag = Tag.timestamp then if Tag.isTimestamp cs then .ok .moment else .error .badTag
  else .error .badTag

/-- Whether a value can be a key. -/
def canBeKey : Value → Bool
  | .list _ | .mapping _ | .set _ => false
  | _ => true

/-- Whether a node is the mark that merges members. -/
def Node.isMergeMark : Node → Bool
  | .scalar tag _ => tag == Tag.merge
  | _ => false

/-- A key that is the mark of a value is a text. -/
def Node.asKey : Node → Node
  | .scalar tag text => if tag = Tag.value then .scalar Tag.text text else .scalar tag text
  | n => n

/-- The members of a mapping without marks that merge: the members that these bring come first.
Such a mark has a mapping, or a sequence of mappings, of which the first count most. -/
def withMerged : Nat → List (Node × Node) → Result (List (Node × Node))
  | 0, _ => .error .badStructure
  | fuel + 1, ms => do
    let membersOf (n : Node) : Result (List (Node × Node)) :=
      match n with
      | .mapping _ ms => withMerged fuel ms
      | .loop _ => .ok []
      | _ => .error .badTag
    let merged ← (ms.filter (·.1.isMergeMark)).mapM fun m =>
      match m.2 with
      | .sequence _ items => return (← items.mapM membersOf).reverse.flatten
      | n => membersOf n
    return merged.flatten ++ ms.filter (!·.1.isMergeMark)

mutual

/-- The value of a node, at most `fuel` levels deep. -/
def valueOf : Nat → Node → Result Value
  | 0, _ => .error .badStructure
  | fuel + 1, n => do
    match n with
    | .scalar tag text => scalarValue tag text
    | .loop isMapping => return if isMapping then .mapping [(.null, .null)] else .list [.null]
    | .sequence tag items =>
      if tag = Tag.sequence then return .list (← items.mapM (valueOf fuel))
      else if tag = Tag.omap || tag = Tag.pairs then
        return .list (← items.mapM fun i => do
          match i with
          | .mapping _ [(k, v)] => return .list [← valueOf fuel k, ← valueOf fuel v]
          | _ => .error .badTag)
      else .error .badTag
    | .mapping tag ms =>
      if tag = Tag.mapping then return .mapping (← membersOf fuel ms)
      else if tag = Tag.set then return .set ((← membersOf fuel ms).map (·.1))
      else scalarValue tag (← n.scalarText)

/-- The members of a mapping, merged ones first. -/
def membersOf : Nat → List (Node × Node) → Result (List (Value × Value))
  | 0, _ => .error .badStructure
  | fuel + 1, ms => do
    (← withMerged fuel ms).mapM fun m => do
      let k ← valueOf fuel m.1.asKey
      if canBeKey k then return (k, ← valueOf fuel m.2) else .error .badKey

end

/-- The value of the one document of a YAML text; without a document it is null. -/
def parse (cs : List Char) : Result Value := do
  let ts ← tokens cs
  match ← readDocument ts with
  | none => return .null
  | some n => valueOf (4 * ts.length + 4) n

/-- Reads the data of a YAML text. -/
def read : Data.Reader := fun cs =>
  (parse cs).mapError Fault.message

end DeclBundle.Yaml
