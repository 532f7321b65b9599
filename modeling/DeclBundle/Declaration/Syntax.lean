import DeclBundle.Rewrite
set_option autoImplicit false

/-!
# Syntax trees of declaration files

A node has the type that the grammar gives it, and may be a field of the node that it stands in.
Types are texts: a word or mark of the language has itself as its type and is not named.  What a
rule asks about a node besides that is its text, its children, and its place, which is the node
around it and the nodes before it.
-/

namespace DeclBundle.Declaration

/-- What the grammar says about a node. -/
structure Label where
  type : String
  isNamed : Bool := true
  /-- the field of the node around it that the node is -/
  field : Option String := none
  deriving DecidableEq, Repr

/-- A node of a syntax tree. -/
abbrev Node := Tree Label

/-- A grammar gives every text its syntax tree. -/
abbrev Grammar := List Char → Node

/-! ## Texts -/

/-- The text of a node. -/
def textOf (source : List UInt8) (n : Node) : Except Utf8.Fault String :=
  (Rewrite.slice source n.start n.stop).map .ofList

/-- The text between the quotes of a literal; a text without matching quotes is left as it is. -/
def unquoted (s : String) : String :=
  match s.toList with
  | c :: cs =>
    if (c = '\'' || c = '"') && !cs.isEmpty && cs.getLast? = some c then .ofList cs.dropLast else s
  | [] => s

/-- The value of a literal. -/
def valueOf (source : List UInt8) (n : Node) : Except Utf8.Fault String :=
  (textOf source n).map unquoted

/-- Whether only blanks of ASCII stand between the beginning of the line and a byte. -/
def startsLine (source : List UInt8) (pos : Nat) : Bool :=
  ((source.take pos).reverse.takeWhile (· != 10)).all fun b => b == 32 || (9 ≤ b && b ≤ 13)

/-! ## Children -/

/-- The first child of a type. -/
def firstOfType? (n : Node) (type : String) : Option Node :=
  n.children.find? (·.label.type == type)

/-- The child that is a field. -/
def field? (n : Node) (name : String) : Option Node :=
  n.children.find? (·.label.field == some name)

/-- Whether a node is an import or export statement. -/
def isModuleStatement (n : Node) : Bool :=
  n.label.type == "import_statement" || n.label.type == "export_statement"

/-- Whether a file is an external module: a statement directly below it is an import or export
statement. -/
def isExternalModule (file : Node) : Bool :=
  file.children.any isModuleStatement

/-! ## Places -/

/-- Where a node stands. -/
inductive Place where
  | root
  /-- in a node that has a place itself, behind the given nodes, the nearest first -/
  | inside (parent : Node) (place : Place) (before : List Node)

/-- The node around a place. -/
def Place.parent? : Place → Option Node
  | root => none
  | inside parent _ _ => some parent

/-- The place of the node around a place. -/
def Place.above? : Place → Option Place
  | root => none
  | inside _ place _ => some place

/-- The nodes before a place in the node around it, the nearest first. -/
def Place.before : Place → List Node
  | root => []
  | inside _ _ before => before

@[simp] theorem Place.parent?_inside (parent : Node) (place : Place) (before : List Node) :
    (inside parent place before).parent? = some parent := rfl

@[simp] theorem Place.above?_inside (parent : Node) (place : Place) (before : List Node) :
    (inside parent place before).above? = some place := rfl

@[simp] theorem Place.before_inside (parent : Node) (place : Place) (before : List Node) :
    (inside parent place before).before = before := rfl

@[simp] theorem Place.parent?_root : root.parent? = none := rfl

@[simp] theorem Place.before_root : root.before = [] := rfl

/-- A node and its place. -/
abbrev Located := Node × Place

mutual

/-- The tree of a node in which every node below it stands with its place. -/
def locate (place : Place) : Node → Tree Located
  | .node l s cs => .node (.node l s cs, place) s (locateAll (.node l s cs) place [] cs)

/-- The same for nodes that stand in a node behind the given ones. -/
def locateAll (parent : Node) (place : Place) (before : List Node) : List Node → List (Tree Located)
  | [] => []
  | c :: cs => locate (.inside parent place before) c :: locateAll parent place (c :: before) cs

end

@[simp] theorem span_locate (place : Place) (n : Node) : (locate place n).span = n.span := by
  cases n with
  | node l s cs => simp [locate]

@[simp] theorem label_locate (place : Place) (n : Node) : (locate place n).label = (n, place) := by
  cases n with
  | node l s cs => simp [locate]

@[simp] theorem children_locate (place : Place) (n : Node) :
    (locate place n).children = locateAll n place [] n.children := by
  cases n with
  | node l s cs => simp [locate]

@[simp] theorem start_locate (place : Place) (n : Node) : (locate place n).start = n.start := by
  rw [Tree.start, span_locate, Tree.start]

@[simp] theorem stop_locate (place : Place) (n : Node) : (locate place n).stop = n.stop := by
  rw [Tree.stop, span_locate, Tree.stop]

/-- Whether a node is the source of the import or export statement that it stands in. -/
def isModuleSource (n : Node) (place : Place) : Bool :=
  n.label.type == "string" &&
    match place.parent? with
    | some parent => isModuleStatement parent && (field? parent "source").any (·.span == n.span)
    | none => false

/-- Whether a node is a literal that `import(…)` is called with. -/
def isImportArgument (n : Node) (place : Place) : Bool :=
  n.label.type == "string" &&
    if place.parent?.any (·.label.type == "arguments") then
      (place.above?.bind (·.before.head?)).any (·.label.type == "import")
    else
      match place.before with
      | bracket :: keyword :: _ => bracket.label.type == "(" && keyword.label.type == "import"
      | _ => false

end DeclBundle.Declaration
