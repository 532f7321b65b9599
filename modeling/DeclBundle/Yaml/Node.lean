import DeclBundle.Yaml.Token
import DeclBundle.Yaml.Tag
set_option autoImplicit false

/-!
# Nodes of a YAML document

The tokens of a document as a tree of scalars, sequences and mappings, each with its tag.  An
alias stands for the node that has its anchor; inside that node itself it is left as a loop.
-/

namespace DeclBundle.Yaml

/-- A node with its tag. -/
inductive Node where
  | scalar (tag text : String)
  | sequence (tag : String) (items : List Node)
  | mapping (tag : String) (members : List (Node × Node))
  /-- an alias for a collection inside that collection -/
  | loop (isMapping : Bool)

/-- What has been read of the tokens of a document. -/
structure Reading where
  tokens : List Token
  anchors : List (String × Node)

namespace Reading

/-- The next token; behind the last one the stream has ended. -/
def peek (r : Reading) : Token := r.tokens.head?.getD .streamEnd

/-- Without the next token. -/
def next (r : Reading) : Reading := { r with tokens := r.tokens.drop 1 }

/-- A new anchor for a node. -/
def define (r : Reading) (name : Option String) (n : Node) : Reading :=
  match name with
  | none => r
  | some a => { r with anchors := (a, n) :: r.anchors.filter (·.1 != a) }

/-- Whether an anchor is there. -/
def defines (r : Reading) (name : String) : Bool :=
  r.anchors.any (·.1 == name)

end Reading

/-- The meanings of the handles of tags. -/
abbrev Handles := List (String × String)

/-- The handles that every document has. -/
def defaultHandles : Handles := [("!", "!"), ("!!", Tag.core)]

/-- The tag that a written tag means. -/
def TagText.meaning (handles : Handles) (t : TagText) : Result String :=
  match t.handle with
  | none => .ok t.suffix
  | some h =>
    match handles.lookup h with
    | some m => .ok (m ++ t.suffix)
    | none => .error .badStructure

/-- The anchor and the tag before a node. -/
structure Properties where
  anchor : Option String := none
  tag : Option String := none

/-- Reads the anchor and the tag before a node, in either order. -/
def properties (handles : Handles) (r : Reading) : Result (Properties × Reading) := do
  match r.peek with
  | .anchor a =>
    let r := r.next
    match r.peek with
    | .tag t => return (⟨some a, some (← t.meaning handles)⟩, r.next)
    | _ => return (⟨some a, none⟩, r)
  | .tag t =>
    let tag ← t.meaning handles
    let r := r.next
    match r.peek with
    | .anchor a => return (⟨some a, some tag⟩, r.next)
    | _ => return (⟨none, some tag⟩, r)
  | _ => return ({}, r)

/-- A node without text. -/
def Node.empty : Node := .scalar Tag.null ""

/-- The tag of a scalar.  Without a tag of its own a plain scalar has the tag that its text asks for,
and any other is a text; the tag `!` asks for the former. -/
def scalarTag (tag : Option String) (text : String) (plain : Bool) : String :=
  match tag with
  | none => if plain then Tag.ofPlain text else Tag.text
  | some t => if t = "!" then Tag.ofPlain text else t

/-- The tag of a collection. -/
def collectionTag (tag : Option String) (default : String) : String :=
  match tag with
  | none => default
  | some t => if t = "!" then default else t

/-- A node that consists of an anchor or a tag only. -/
def Properties.alone (p : Properties) (r : Reading) : Result (Node × Reading) :=
  if p.anchor.isNone && p.tag.isNone then .error .badStructure
  else
    let n := Node.scalar (scalarTag p.tag "" true) ""
    .ok (n, r.define p.anchor n)

/-- The sequence of the items that were read. -/
def Properties.sequence (p : Properties) (items : List Node × Reading) : Node × Reading :=
  let n := Node.sequence (collectionTag p.tag Tag.sequence) items.1
  (n, items.2.define p.anchor n)

/-- The mapping of the members that were read. -/
def Properties.mapping (p : Properties) (members : List (Node × Node) × Reading) :
    Node × Reading :=
  let n := Node.mapping (collectionTag p.tag Tag.mapping) members.1
  (n, members.2.define p.anchor n)

mutual

/-- Reads a node.  In a block, block collections may stand; where `indentless` holds, the entries of
a sequence may stand at the column of the mapping around them. -/
def readNode (handles : Handles) (block indentless : Bool) :
    Nat → Reading → Result (Node × Reading)
  | 0, _ => .error .badStructure
  | fuel + 1, r =>
    match r.peek with
    | .alias a =>
      match r.anchors.lookup a with
      | some n => .ok (n, r.next)
      | none => .error .badAnchor
    | _ => do
      let (p, r) ← properties handles r
      if p.anchor.any r.defines then .error .badAnchor
      else
        let asSequence := r.define p.anchor (.loop false)
        let asMapping := r.define p.anchor (.loop true)
        match r.peek, block, indentless with
        | .scalar text plain, _, _ =>
          let n := Node.scalar (scalarTag p.tag text plain) text
          return (n, r.next.define p.anchor n)
        | .blockEntry, _, true => return p.sequence (← readIndentless handles fuel asSequence)
        | .flowSequenceStart, _, _ =>
          return p.sequence (← readFlowItems handles true fuel asSequence.next)
        | .flowMappingStart, _, _ =>
          return p.mapping (← readFlowMembers handles true fuel asMapping.next)
        | .blockSequenceStart, true, _ =>
          return p.sequence (← readBlockItems handles fuel asSequence.next)
        | .blockMappingStart, true, _ =>
          return p.mapping (← readBlockMembers handles fuel asMapping.next)
        | _, _, _ => p.alone r

/-- Reads the items of a block sequence and its end. -/
def readBlockItems (handles : Handles) : Nat → Reading → Result (List Node × Reading)
  | 0, _ => .error .badStructure
  | fuel + 1, r => do
    match r.peek with
    | .blockEntry =>
      let r := r.next
      let (n, r) ←
        match r.peek with
        | .blockEntry | .blockEnd => pure (Node.empty, r)
        | _ => readNode handles true false fuel r
      let (ns, r) ← readBlockItems handles fuel r
      return (n :: ns, r)
    | .blockEnd => return ([], r.next)
    | _ => .error .badStructure

/-- Reads the items of a sequence that has no indentation of its own. -/
def readIndentless (handles : Handles) : Nat → Reading → Result (List Node × Reading)
  | 0, _ => .error .badStructure
  | fuel + 1, r => do
    match r.peek with
    | .blockEntry =>
      let r := r.next
      let (n, r) ←
        match r.peek with
        | .blockEntry | .key | .value | .blockEnd => pure (Node.empty, r)
        | _ => readNode handles true false fuel r
      let (ns, r) ← readIndentless handles fuel r
      return (n :: ns, r)
    | _ => return ([], r)

/-- Reads the node behind the mark of a key or value in a block mapping; there may be none. -/
def readBlockPart (handles : Handles) : Nat → Reading → Result (Node × Reading)
  | 0, _ => .error .badStructure
  | fuel + 1, r => do
    match r.peek with
    | .key | .value | .blockEnd => return (Node.empty, r)
    | _ => readNode handles true true fuel r

/-- Reads the members of a block mapping and its end. -/
def readBlockMembers (handles : Handles) : Nat → Reading → Result (List (Node × Node) × Reading)
  | 0, _ => .error .badStructure
  | fuel + 1, r => do
    match r.peek with
    | .blockEnd => return ([], r.next)
    | .key | .value =>
      let (k, r) ←
        match r.peek with
        | .key => readBlockPart handles fuel r.next
        | _ => pure (Node.empty, r)
      let (v, r) ←
        match r.peek with
        | .value => readBlockPart handles fuel r.next
        | _ => pure (Node.empty, r)
      let (ms, r) ← readBlockMembers handles fuel r
      return ((k, v) :: ms, r)
    | _ => .error .badStructure

/-- Reads the node behind the mark of a key or value in a flow collection; there may be none. -/
def readFlowPart (handles : Handles) : Nat → Reading → Result (Node × Reading)
  | 0, _ => .error .badStructure
  | fuel + 1, r => do
    match r.peek with
    | .value | .flowEntry | .flowSequenceEnd | .flowMappingEnd => return (Node.empty, r)
    | _ => readNode handles false false fuel r

/-- Reads the items of a flow sequence and its end.  An item with a key is a mapping of one. -/
def readFlowItems (handles : Handles) (first : Bool) : Nat → Reading → Result (List Node × Reading)
  | 0, _ => .error .badStructure
  | fuel + 1, r => do
    match r.peek with
    | .flowSequenceEnd => return ([], r.next)
    | t =>
      let r ←
        if first then pure r
        else if t = .flowEntry then pure r.next
        else .error .badStructure
      match r.peek with
      | .flowSequenceEnd => return ([], r.next)
      | .key =>
        let (k, r) ← readFlowPart handles fuel r.next
        let (v, r) ←
          match r.peek with
          | .value => readFlowPart handles fuel r.next
          | _ => pure (Node.empty, r)
        let (ns, r) ← readFlowItems handles false fuel r
        return (.mapping Tag.mapping [(k, v)] :: ns, r)
      | _ =>
        let (n, r) ← readNode handles false false fuel r
        let (ns, r) ← readFlowItems handles false fuel r
        return (n :: ns, r)

/-- Reads the members of a flow mapping and its end.  An item without a key is a key. -/
def readFlowMembers (handles : Handles) (first : Bool) :
    Nat → Reading → Result (List (Node × Node) × Reading)
  | 0, _ => .error .badStructure
  | fuel + 1, r => do
    match r.peek with
    | .flowMappingEnd => return ([], r.next)
    | t =>
      let r ←
        if first then pure r
        else if t = .flowEntry then pure r.next
        else .error .badStructure
      match r.peek with
      | .flowMappingEnd => return ([], r.next)
      | .key =>
        let (k, r) ← readFlowPart handles fuel r.next
        let (v, r) ←
          match r.peek with
          | .value => readFlowPart handles fuel r.next
          | _ => pure (Node.empty, r)
        let (ms, r) ← readFlowMembers handles false fuel r
        return ((k, v) :: ms, r)
      | _ =>
        let (k, r) ← readNode handles false false fuel r
        let (ms, r) ← readFlowMembers handles false fuel r
        return ((k, Node.empty) :: ms, r)

end

/-! ## Documents -/

/-- What the directives of a document say: whether a version was given, and handles. -/
structure Directives where
  hasVersion : Bool := false
  handles : Handles := []

/-- Reads the directives before a document. -/
def readDirectives : Nat → Directives → Reading → Result (Directives × Reading)
  | 0, _, _ => .error .badStructure
  | fuel + 1, d, r =>
    match r.peek with
    | .version major _ =>
      if d.hasVersion || major != 1 then .error .badStructure
      else readDirectives fuel { d with hasVersion := true } r.next
    | .tagDirective h m =>
      if d.handles.any (·.1 == h) then .error .badStructure
      else readDirectives fuel { d with handles := (h, m) :: d.handles } r.next
    | .otherDirective => readDirectives fuel d r.next
    | _ => .ok (d, r)

/-- Reads the one document of a stream; there may be none. -/
def readDocument (ts : List Token) : Result (Option Node) := do
  let fuel := 2 * ts.length + 2
  let r : Reading := ⟨ts, []⟩
  let ended (n : Node) (r : Reading) : Result (Option Node) :=
    match ({ r with tokens := r.tokens.dropWhile (· == .documentEnd) } : Reading).peek with
    | .streamEnd => .ok (some n)
    | _ => .error .severalDocuments
  match r.peek with
  | .streamEnd => return none
  | .version _ _ | .tagDirective _ _ | .otherDirective | .documentStart =>
    let (d, r) ← readDirectives fuel {} r
    match r.peek with
    | .documentStart =>
      let r := r.next
      match r.peek with
      | .version _ _ | .tagDirective _ _ | .otherDirective | .documentStart | .documentEnd
      | .streamEnd => ended Node.empty r
      | _ =>
        let (n, r) ← readNode (d.handles ++ defaultHandles) true false fuel r
        ended n r
    | _ => .error .badStructure
  | _ =>
    let (n, r) ← readNode defaultHandles true false fuel r
    ended n r

end DeclBundle.Yaml
